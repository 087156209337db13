import EarbudFirmware.A2dp.SbcStored

/-!
# Discarding SBC packets

Frames at the head of the list are removed up to the first one with the number 0, then a number of
packets, each as long as this frame says its packet is. The first loop counts its steps up while the
list gets shorter, and gives up in the middle of the list.

## Main definitions

* `discardsPacket` — `a2dp_audio_sbc_discards_packet`
* `Produced` — the lists that stores and removals at the head produce, with their packets
* `DiscardsWhole` — the rest of the first packet goes, and then whole packets or none
* `NumbersFit` — when it does, in terms of the numbers of the frames

## Main results

* `skipLoop_eq`, `removePackets_eq` — what the loops remove
* `discardsWhole_iff` — the lists that are cut at packet boundaries
-/

namespace EarbudFirmware.A2dp

/-- How `a2dp_audio_sbc_discards_packet` stops the device: by its assertion, or where it divides by
the length of a packet. -/
inductive DiscardFault where
  | assertion
  | zeroDivide
  deriving DecidableEq

/-- The results of `a2dp_audio_sbc_discards_packet`. -/
inductive DiscardRet where
  | noError
  | memoryError
  deriving DecidableEq

/-- The first loop, which removes the frames up to the first one with the number 0. Its counter has
8 bits. -/
def skipLoop : Nat → List SbcNode → List SbcNode
  | _, [] => []
  | j, node :: rest =>
    if j < (node :: rest).length then
      if node.frame.curSubSequenceNumber ≠ 0 then skipLoop ((j + 1) % 256) rest else node :: rest
    else node :: rest

/-- The inner loop, which removes a packet of `total` frames; `none` when the list ends. Its counter
has 8 bits. -/
def removeLoop (total : Nat) : Nat → List SbcNode → Option (List SbcNode)
  | j, [] => if j < total then none else some []
  | j, node :: rest =>
    if j < total then removeLoop total ((j + 1) % 256) rest else some (node :: rest)

/-- The outer loop, which removes the packets; `none` when the list ends. Its counter has 8 bits.
Every round removes a frame, so that there are no more rounds than frames and one. -/
def removePackets (total packets : Nat) : Nat → Nat → List SbcNode → Option (List SbcNode)
  | 0, _, _ => none
  | rounds + 1, i, list =>
    if i < packets then
      match removeLoop total 0 list with
      | none => none
      | some list => removePackets total packets rounds ((i + 1) % 256) list
    else some list

/-- `a2dp_audio_sbc_discards_packet`: the result, and the list. -/
def discardsPacket (packets : Nat) (list : List SbcNode) :
    Except DiscardFault (DiscardRet × List SbcNode) :=
  match skipLoop 0 list with
  | [] => .ok (.memoryError, [])
  | node :: rest =>
    if node.frame.curSubSequenceNumber ≠ 0 then .error .assertion
    else
      let total := node.frame.totalSubSequenceNumber.toNat
      if total = 0 then .error .zeroDivide
      else if packets ≤ (node :: rest).length / total then
        match removePackets total packets ((node :: rest).length + 1) 0 (node :: rest) with
        | none => .ok (.memoryError, [])
        | some list => .ok (.noError, list)
      else .ok (.memoryError, node :: rest)

/-! ### The lists and their packets -/

/-- The lists that are produced by storing packets in the build that recovers, and by removing
frames at the head: `lead` is what is left of a packet whose first frames have been removed, and
`whole` are the packets behind it, each with the repeats that were stored in front of its frames. -/
inductive Produced : SbcStore → List SbcNode → List (List SbcNode) → Prop where
  | empty {s : SbcStore} (h : s.list = []) : Produced s [] []
  | stored {s : SbcStore} {lead : List SbcNode} {whole : List (List SbcNode)} (c : StoreCall)
      (hbuild : c.dontPlayMute = false) (h : Produced s lead whole)
      (hnew : (storePacket c s).2.list ≠ s.list) :
      Produced (storePacket c s).2.toSbcStore lead
        (whole ++ [(storePacket c s).2.list.drop s.list.length])
  | unchanged {s : SbcStore} {lead : List SbcNode} {whole : List (List SbcNode)} (c : StoreCall)
      (hbuild : c.dontPlayMute = false) (h : Produced s lead whole)
      (hold : (storePacket c s).2.list = s.list) :
      Produced (storePacket c s).2.toSbcStore lead whole
  | removedRest {s : SbcStore} {node : SbcNode} {lead : List SbcNode}
      {whole : List (List SbcNode)} (h : Produced s (node :: lead) whole) :
      Produced { s with list := s.list.tail } lead whole
  | removedFirst {s : SbcStore} {node : SbcNode} {packet : List SbcNode}
      {whole : List (List SbcNode)} (h : Produced s [] ((node :: packet) :: whole)) :
      Produced { s with list := s.list.tail } packet whole

/-- What is left of the first packet is removed, and then the packets that are asked for, or none
when there are not as many. -/
def DiscardsWhole (whole : List (List SbcNode)) (packets : Nat)
    (out : Except DiscardFault (DiscardRet × List SbcNode)) : Prop :=
  if packets ≤ whole.length then out = .ok (.noError, (whole.drop packets).flatten)
  else out = .ok (.memoryError, whole.flatten)

/-- The frames in front of the first one with the number 0. -/
def skipped (list : List SbcNode) : Nat :=
  (list.takeWhile fun node => node.frame.curSubSequenceNumber ≠ 0).length

/-- The counters of the loops do not come to the end of so many frames or packets. -/
def Wraps (total packets : Nat) : Prop := 0 < packets ∧ (255 < total ∨ 255 < packets)

instance (total packets : Nat) : Decidable (Wraps total packets) :=
  inferInstanceAs (Decidable (_ ∧ _))

/-- The numbers in the list fit its packets: the frames in front of the first number 0 are at most
half of the list. Where there is no number 0, there is no whole packet, and one is asked for. Else
the packet at the first number 0 says how long packets are: as many whole packets as are asked for
follow, and have this length together with what is not skipped in front of them; or fewer follow,
this length is not there so often, and the rest of the first packet is what is skipped. -/
def NumbersFit (lead : List SbcNode) (whole : List (List SbcNode)) (packets : Nat) : Prop :=
  let list := lead ++ whole.flatten
  2 * skipped list ≤ list.length + 1 ∧
  match list.drop (skipped list) with
  | [] => whole = [] ∧ 0 < packets
  | node :: _ =>
    let total := node.frame.totalSubSequenceNumber.toNat
    total ≠ 0 ∧
    if packets * total ≤ list.length - skipped list then
      if Wraps total packets then whole = [] else
        packets ≤ whole.length ∧
          skipped list + packets * total = lead.length + (whole.take packets).flatten.length
    else whole.length < packets ∧ skipped list = lead.length

/-! ### What the loops remove -/

theorem skipped_cons (node : SbcNode) (rest : List SbcNode) :
    skipped (node :: rest) =
      if node.frame.curSubSequenceNumber ≠ 0 then skipped rest + 1 else 0 := by
  by_cases h : node.frame.curSubSequenceNumber = 0 <;> simp [skipped, h]

theorem skipped_le (list : List SbcNode) : skipped list ≤ list.length :=
  (List.takeWhile_sublist _).length_le

/-- The first frame behind those that are skipped has the number 0. -/
theorem number_eq_zero {list rest : List SbcNode} {node : SbcNode}
    (h : list.drop (skipped list) = node :: rest) : node.frame.curSubSequenceNumber = 0 := by
  induction list with
  | nil => simp at h
  | cons first list ih =>
    rw [skipped_cons] at h
    split at h
    · exact ih (by simpa using h)
    · next hzero =>
      rw [List.drop_zero, List.cons.injEq] at h
      exact h.1 ▸ Classical.not_not.mp hzero

/-- A frame that would be skipped does not have the number 0. -/
theorem number_ne_zero {list rest : List SbcNode} {node : SbcNode} {k : Nat}
    (hk : k < skipped list) (h : list.drop k = node :: rest) :
    node.frame.curSubSequenceNumber ≠ 0 := by
  induction list generalizing k with
  | nil => simp at h
  | cons first list ih =>
    rw [skipped_cons] at hk
    split at hk
    · next hfirst =>
      cases k with
      | zero =>
        rw [List.drop_zero, List.cons.injEq] at h
        exact h.1 ▸ hfirst
      | succ k => exact ih (Nat.lt_of_succ_lt_succ hk) (by simpa using h)
    · exact absurd hk (Nat.not_lt_zero k)

/-- The first loop removes the frames in front of the number 0, but at most half of the list. -/
theorem skipLoop_eq {j : Nat} {list : List SbcNode} (h : j + list.length ≤ 510) :
    skipLoop j list = list.drop (min (skipped list) ((list.length - j + 1) / 2)) := by
  induction list generalizing j with
  | nil => simp [skipLoop]
  | cons node rest ih =>
    rw [List.length_cons] at h
    rw [skipLoop, skipped_cons, List.length_cons]
    by_cases hlt : j < rest.length + 1
    · rw [if_pos hlt]
      by_cases hzero : node.frame.curSubSequenceNumber ≠ 0
      · rw [if_pos hzero, if_pos hzero, Nat.mod_eq_of_lt (by omega), ih (by omega)]
        have hhalf : (rest.length + 1 - j + 1) / 2 = (rest.length - (j + 1) + 1) / 2 + 1 := by omega
        rw [hhalf, Nat.add_min_add_right, List.drop_succ_cons]
      · rw [if_neg hzero, if_neg hzero, Nat.zero_min, List.drop_zero]
    · have hhalf : (rest.length + 1 - j + 1) / 2 = 0 := by omega
      rw [if_neg hlt, hhalf, Nat.min_zero, List.drop_zero]

theorem removeLoop_eq {total j : Nat} {list : List SbcNode} (htotal : total ≤ 255)
    (hj : j ≤ total) : removeLoop total j list =
      if total - j ≤ list.length then some (list.drop (total - j)) else none := by
  induction list generalizing j with
  | nil =>
    rw [removeLoop, List.length_nil, List.drop_nil]
    by_cases hlt : j < total
    · rw [if_pos hlt, if_neg (by omega)]
    · rw [if_neg hlt, if_pos (by omega)]
  | cons node rest ih =>
    rw [removeLoop, List.length_cons]
    by_cases hlt : j < total
    · have hsub : total - j = total - (j + 1) + 1 := by omega
      rw [if_pos hlt, Nat.mod_eq_of_lt (by omega), ih hlt, hsub, List.drop_succ_cons]
      simp only [Nat.add_le_add_iff_right]
    · have hzero : total - j = 0 := by omega
      rw [if_neg hlt, hzero, if_pos (Nat.zero_le _), List.drop_zero]

/-- A counter of 8 bits does not come to a longer packet. -/
theorem removeLoop_wraps {total j : Nat} (htotal : 255 < total) (hj : j < 256)
    (list : List SbcNode) : removeLoop total j list = none := by
  induction list generalizing j with
  | nil => rw [removeLoop, if_pos (by omega)]
  | cons node rest ih => rw [removeLoop, if_pos (by omega), ih (Nat.mod_lt _ (by omega))]

theorem removePackets_eq {total packets rounds i : Nat} {list : List SbcNode}
    (htotal : total ≤ 255) (hpackets : packets ≤ 255) (hi : i ≤ packets)
    (hlist : (packets - i) * total ≤ list.length) (hrounds : packets - i < rounds) :
    removePackets total packets rounds i list = some (list.drop ((packets - i) * total)) := by
  induction rounds generalizing i list with
  | zero => exact absurd hrounds (Nat.not_lt_zero _)
  | succ rounds ih =>
    rw [removePackets]
    by_cases hlt : i < packets
    · have hsub : (packets - i) * total = total + (packets - (i + 1)) * total := by
        rw [show packets - i = packets - (i + 1) + 1 by omega, Nat.succ_mul, Nat.add_comm]
      rw [hsub] at hlist ⊢
      rw [if_pos hlt, removeLoop_eq htotal (Nat.zero_le _), Nat.sub_zero, if_pos (by omega)]
      dsimp only
      have hrest := @ih (i + 1) (list.drop total) hlt (by rw [List.length_drop]; omega) (by omega)
      rw [Nat.mod_eq_of_lt (by omega), hrest, List.drop_drop]
    · rw [if_neg hlt, Nat.sub_eq_zero_of_le (Nat.le_of_not_lt hlt), Nat.zero_mul, List.drop_zero]

theorem removePackets_wraps {total packets rounds i : Nat} {list : List SbcNode}
    (h : 255 < packets) (hi : i < 256) :
    removePackets total packets rounds i list = none := by
  induction rounds generalizing i list with
  | zero => rfl
  | succ rounds ih =>
    rw [removePackets, if_pos (by omega)]
    split
    · rfl
    · exact ih (Nat.mod_lt _ (by omega))

/-! ### Where the list is cut -/

/-- What `a2dp_audio_sbc_discards_packet` does to a list whose first loop gives up in time. -/
theorem discardsPacket_cons {packets : Nat} {list rest : List SbcNode} {node : SbcNode}
    (hlength : list.length ≤ 510) (hhalf : 2 * skipped list ≤ list.length + 1)
    (hnode : list.drop (skipped list) = node :: rest) :
    discardsPacket packets list =
      let total := node.frame.totalSubSequenceNumber.toNat
      if total = 0 then .error .zeroDivide
      else if packets * total ≤ list.length - skipped list then
        if Wraps total packets then .ok (.memoryError, [])
        else .ok (.noError, list.drop (skipped list + packets * total))
      else .ok (.memoryError, list.drop (skipped list)) := by
  have hzero := number_eq_zero hnode
  have hcount : (node :: rest).length = list.length - skipped list := by
    rw [← hnode, List.length_drop]
  rw [discardsPacket, skipLoop_eq (by omega), Nat.sub_zero, Nat.min_eq_left (by omega), hnode]
  dsimp only
  rw [if_neg (by simp [hzero]), hcount]
  by_cases htotal : node.frame.totalSubSequenceNumber.toNat = 0
  · rw [if_pos htotal, if_pos htotal]
  · rw [if_neg htotal, if_neg htotal]
    have hpos := Nat.pos_of_ne_zero htotal
    simp only [Nat.le_div_iff_mul_le hpos]
    by_cases hroom : packets * node.frame.totalSubSequenceNumber.toNat ≤
        list.length - skipped list
    · rw [if_pos hroom, if_pos hroom]
      by_cases hwraps : Wraps node.frame.totalSubSequenceNumber.toNat packets
      · rw [if_pos hwraps]
        suffices hnone : removePackets node.frame.totalSubSequenceNumber.toNat packets
            (list.length - skipped list + 1) 0 (node :: rest) = none by
          rw [hnone]
        by_cases hpackets : 255 < packets
        · exact removePackets_wraps hpackets (by omega)
        · rw [removePackets, if_pos hwraps.1,
            removeLoop_wraps (hwraps.2.resolve_right hpackets) (by omega)]
      · rw [if_neg hwraps]
        by_cases hnothing : packets = 0
        · subst hnothing
          rw [removePackets, if_neg (Nat.lt_irrefl 0), Nat.zero_mul, Nat.add_zero, hnode]
        · have hsmall : node.frame.totalSubSequenceNumber.toNat ≤ 255 ∧ packets ≤ 255 := by
            unfold Wraps at hwraps
            omega
          have hle : packets ≤ packets * node.frame.totalSubSequenceNumber.toNat :=
            Nat.le_mul_of_pos_right packets hpos
          rw [removePackets_eq hsmall.1 hsmall.2 (Nat.zero_le _)
            (by rw [hcount, Nat.sub_zero]; exact hroom) (by omega), Nat.sub_zero, ← hnode,
            List.drop_drop]
    · rw [if_neg hroom, if_neg hroom]

/-- A list without a number 0. -/
theorem discardsPacket_nil {packets : Nat} {list : List SbcNode} (hlength : list.length ≤ 510)
    (hhalf : 2 * skipped list ≤ list.length + 1) (hnode : list.drop (skipped list) = []) :
    discardsPacket packets list = .ok (.memoryError, []) := by
  rw [discardsPacket, skipLoop_eq (by omega), Nat.sub_zero, Nat.min_eq_left (by omega), hnode]

/-- A list whose first loop gives up in front of the number 0. -/
theorem discardsPacket_half {packets : Nat} {list : List SbcNode} (hlength : list.length ≤ 510)
    (hhalf : ¬2 * skipped list ≤ list.length + 1) :
    discardsPacket packets list = .error .assertion := by
  have hle := skipped_le list
  have hmin : min (skipped list) ((list.length - 0 + 1) / 2) = (list.length + 1) / 2 := by omega
  rw [discardsPacket, skipLoop_eq (by omega), hmin]
  cases hrest : list.drop ((list.length + 1) / 2) with
  | nil =>
    have hlen := congrArg List.length hrest
    rw [List.length_drop, List.length_nil] at hlen
    omega
  | cons node rest =>
    dsimp only
    rw [if_pos (number_ne_zero (by omega) hrest)]

theorem drop_eq_drop_iff {list : List SbcNode} {a b : Nat} (ha : a ≤ list.length)
    (hb : b ≤ list.length) : list.drop a = list.drop b ↔ a = b := by
  constructor
  · intro h
    have hlen := congrArg List.length h
    rw [List.length_drop, List.length_drop] at hlen
    omega
  · rintro rfl
    rfl

/-- Removing whole packets leaves the others. -/
theorem flatten_drop_eq (lead : List SbcNode) (whole : List (List SbcNode)) (packets : Nat) :
    (whole.drop packets).flatten =
      (lead ++ whole.flatten).drop (lead.length + (whole.take packets).flatten.length) := by
  conv_rhs => rw [← List.take_append_drop packets whole, List.flatten_append, ← List.append_assoc,
    ← List.length_append, List.take_append_drop, List.drop_left]

section Cut

variable {lead list : List SbcNode} {whole : List (List SbcNode)} {packets : Nat}

theorem discardsWhole_noError :
    DiscardsWhole whole packets (.ok (.noError, list)) ↔
      packets ≤ whole.length ∧ list = (whole.drop packets).flatten := by
  unfold DiscardsWhole
  split
  · next h => simp [h]
  · next h => simp [h]

theorem discardsWhole_memoryError :
    DiscardsWhole whole packets (.ok (.memoryError, list)) ↔
      whole.length < packets ∧ list = whole.flatten := by
  unfold DiscardsWhole
  split
  · next h => simp [Nat.not_lt.mpr h]
  · next h => simp [Nat.lt_of_not_le h]

theorem not_discardsWhole_error (fault : DiscardFault) :
    ¬DiscardsWhole whole packets (.error fault) := by
  unfold DiscardsWhole
  split <;> simp

theorem flatten_eq_nil_iff (hwhole : ∀ packet ∈ whole, packet ≠ []) :
    whole.flatten = [] ↔ whole = [] := by
  constructor
  · intro h
    cases whole with
    | nil => rfl
    | cons packet whole =>
      rw [List.flatten_cons, List.append_eq_nil_iff] at h
      exact absurd h.1 (hwhole packet List.mem_cons_self)
  · rintro rfl
    rfl

/-- A list is cut at packet boundaries exactly when its numbers fit. -/
theorem discardsWhole_numbersFit (hwhole : ∀ packet ∈ whole, packet ≠ [])
    (hlength : (lead ++ whole.flatten).length ≤ 510) :
    DiscardsWhole whole packets (discardsPacket packets (lead ++ whole.flatten)) ↔
      NumbersFit lead whole packets := by
  unfold NumbersFit
  dsimp only
  by_cases hhalf : 2 * skipped (lead ++ whole.flatten) ≤ (lead ++ whole.flatten).length + 1
  · rw [and_iff_right hhalf]
    cases hnode : (lead ++ whole.flatten).drop (skipped (lead ++ whole.flatten)) with
    | nil =>
      rw [discardsPacket_nil hlength hhalf hnode, discardsWhole_memoryError,
        @eq_comm _ [] whole.flatten, flatten_eq_nil_iff hwhole]
      constructor
      · rintro ⟨hless, rfl⟩
        exact ⟨rfl, hless⟩
      · rintro ⟨rfl, hpos⟩
        exact ⟨hpos, rfl⟩
    | cons node rest =>
      rw [discardsPacket_cons hlength hhalf hnode]
      dsimp only
      by_cases htotal : node.frame.totalSubSequenceNumber.toNat = 0
      · rw [if_pos htotal]
        exact iff_of_false (not_discardsWhole_error _) fun h => h.1 htotal
      rw [if_neg htotal, and_iff_right htotal]
      by_cases hroom : packets * node.frame.totalSubSequenceNumber.toNat ≤
          (lead ++ whole.flatten).length - skipped (lead ++ whole.flatten)
      · rw [if_pos hroom, if_pos hroom]
        by_cases hwraps : Wraps node.frame.totalSubSequenceNumber.toNat packets
        · rw [if_pos hwraps, if_pos hwraps, discardsWhole_memoryError,
            @eq_comm _ [] whole.flatten, flatten_eq_nil_iff hwhole]
          constructor
          · exact And.right
          · rintro rfl
            exact ⟨hwraps.1, rfl⟩
        · rw [if_neg hwraps, if_neg hwraps, discardsWhole_noError, flatten_drop_eq lead,
            drop_eq_drop_iff]
          · have := skipped_le (lead ++ whole.flatten)
            omega
          · have hparts := congrArg (fun l => l.flatten.length)
              (List.take_append_drop packets whole)
            simp only [List.flatten_append, List.length_append] at hparts ⊢
            omega
      · have hlead : whole.flatten = (lead ++ whole.flatten).drop lead.length := by simp
        have hdrop := @drop_eq_drop_iff (lead ++ whole.flatten) (skipped (lead ++ whole.flatten))
          lead.length (skipped_le _) (by simp)
        rw [if_neg hroom, if_neg hroom, discardsWhole_memoryError, ← hdrop, ← hlead]
  · rw [discardsPacket_half hlength hhalf]
    exact iff_of_false (not_discardsWhole_error _) fun h => hhalf h.1

end Cut

/-! ### Produced lists -/

/-- The loop that stores a packet does not touch the list in the build that recovers. -/
theorem StoreCall.storeLoop_list {c : StoreCall} (hbuild : c.dontPlayMute = false)
    (free i : Nat) (frames : List SbcNode) (w : Storing) :
    (c.storeLoop free i frames w).2.2.list = w.list := by
  induction free generalizing i frames w with
  | zero => rfl
  | succ free ih =>
    obtain hi | ⟨hi, hframe⟩ | ⟨n, hi, hframe⟩ := c.place_cases i
    · rw [c.storeLoop_done hi]
    · rw [c.storeLoop_refused hi hframe]
      unfold dump8
      split <;> rfl
    · rw [c.storeLoop_frame hi hframe]
      simp only [storeFrame, hbuild, Bool.false_eq_true, if_false]
      rw [ih]
      rfl

theorem StoreCall.length_cut_le (c : StoreCall) (free i : Nat) :
    (c.cut free i).1.length ≤ free := by
  induction free generalizing i with
  | zero => exact Nat.le_refl 0
  | succ free ih =>
    obtain hi | ⟨hi, hframe⟩ | ⟨n, hi, hframe⟩ := c.place_cases i
    · simp [c.cut_done hi]
    · simp [c.cut_refused hi hframe]
    · rw [c.cut_frame hi hframe]
      exact Nat.succ_le_succ (ih (i + n))

/-- The recovery appends to the list, and keeps it below its limit. -/
theorem StoreCall.recover_list (c : StoreCall) (raw : Option SbcNode) (w : Storing) :
    ∃ copies, (c.recover raw w).list = w.list ++ copies ∧
      (copies = [] ∨ w.list.length + copies.length < sbcMtuLimiter) := by
  unfold recover
  split
  · exact ⟨[], by simp, .inl rfl⟩
  · dsimp only [recoverProc]
    cases raw with
    | none => exact ⟨[], by simp, .inl rfl⟩
    | some raw =>
      dsimp only
      split
      · next hmissing =>
        obtain ⟨copies, hlist, hlength, -, -⟩ := c.recoverLoop_spec raw
          (recoverFindMissing w.lastValid c.header c.frameNum) w
        exact ⟨copies, hlist, .inr (hlength ▸ hmissing.2)⟩
      · exact ⟨[], by simp, .inl rfl⟩

/-- A store of the build that recovers appends to the list, and no more than the limit and the
frames of a packet allow. -/
theorem storePacket_appends {c : StoreCall} (hbuild : c.dontPlayMute = false) (s : SbcStore) :
    ∃ new, (storePacket c s).2.list = s.list ++ new ∧
      (new = [] ∨ s.list.length + new.length < sbcMtuLimiter + frameListMax) := by
  have hnone {w : Storing} (hlist : w.list = s.list) : ∃ new, w.list = s.list ++ new ∧
      (new = [] ∨ s.list.length + new.length < sbcMtuLimiter + frameListMax) :=
    ⟨[], by simpa using hlist, .inl rfl⟩
  unfold storePacket
  split
  · refine hnone ?_
    unfold StoreCall.dump8
    split <;> rfl
  split
  · next hroom =>
    have hlist := StoreCall.storeLoop_list hbuild frameListMax 0 [] s.begin
    have hframes := c.storeLoop_frames frameListMax 0 [] s.begin
    generalize c.storeLoop frameListMax 0 [] s.begin = r at hlist hframes ⊢
    obtain ⟨e, frames, w⟩ := r
    have hold : w.list = s.list := hlist
    cases e with
    | sync => exact hnone hold
    | findErr => exact hnone hold
    | done =>
      have hcount : frames.length ≤ frameListMax := by
        rcases hframes with hsync | ⟨-, hcut⟩
        · cases hsync
        · have hlength := congrArg List.length hcut
          simp only [List.length_map, List.map_nil, List.nil_append, c.length_framesFrom] at hlength
          rw [hlength]
          exact c.length_cut_le frameListMax 0
      obtain ⟨copies, hcopied, hlimit⟩ := c.recover_list frames.head? w
      refine ⟨copies ++ frames, ?_, .inr ?_⟩
      · show (c.recover frames.head? w).list ++ frames = _
        rw [hcopied, hold, List.append_assoc]
      · rw [hold] at hlimit
        rw [List.length_append]
        rcases hlimit with rfl | hlimit
        · rw [List.length_nil]
          omega
        · omega
  · exact hnone rfl

/-- A produced list is made of its packets, which are not empty. -/
theorem Produced.list_eq {s : SbcStore} {lead : List SbcNode} {whole : List (List SbcNode)}
    (h : Produced s lead whole) :
    s.list = lead ++ whole.flatten ∧ (∀ packet ∈ whole, packet ≠ []) ∧
      s.list.length < sbcMtuLimiter + frameListMax := by
  induction h with
  | empty h => exact ⟨by simp [h], by simp, by simp [h, sbcMtuLimiter, frameListMax]⟩
  | @stored s lead whole c hbuild _ hnew ih =>
    obtain ⟨hlist, hwhole, -⟩ := ih
    obtain ⟨new, happended, hlimit⟩ := storePacket_appends hbuild s
    have hne : new ≠ [] := by
      rintro rfl
      exact hnew (by rw [happended, List.append_nil])
    rw [happended, List.drop_left]
    refine ⟨by rw [hlist]; simp, fun packet hpacket => ?_, ?_⟩
    · rcases List.mem_append.mp hpacket with hold | hpacket
      · exact hwhole packet hold
      · exact List.mem_singleton.mp hpacket ▸ hne
    · rw [List.length_append]
      exact hlimit.resolve_left hne
  | unchanged c hbuild _ hold ih =>
    rw [hold]
    exact ih
  | @removedRest s node lead whole _ ih =>
    obtain ⟨hlist, hwhole, hlimit⟩ := ih
    refine ⟨by simp [hlist], hwhole, ?_⟩
    simp only [List.length_tail]
    omega
  | @removedFirst s node packet whole _ ih =>
    obtain ⟨hlist, hwhole, hlimit⟩ := ih
    refine ⟨by simp [hlist], fun p hp => hwhole p (List.mem_cons_of_mem _ hp), ?_⟩
    simp only [List.length_tail]
    omega

/-- A discard cuts a produced list at packet boundaries exactly when the numbers in the list fit. -/
theorem discardsWhole_iff (s : SbcStore) (lead : List SbcNode) (whole : List (List SbcNode))
    (packets : Nat) (h : Produced s lead whole) :
    DiscardsWhole whole packets (discardsPacket packets s.list) ↔
      NumbersFit lead whole packets := by
  obtain ⟨hlist, hwhole, hlimit⟩ := h.list_eq
  rw [hlist] at hlimit ⊢
  exact discardsWhole_numbersFit hwhole
    (Nat.le_trans (Nat.le_of_lt hlimit) (by decide))

/-- Frames of one byte are found while there is a byte left. -/
theorem oneByte_bound (told n : Nat) (h : (if 1 ≤ told then some 1 else none) = some n) :
    0 < n ∧ n ≤ told := by
  simp only [Option.ite_none_right_eq_some, Option.some.injEq] at h
  omega

/-- A packet of `n` frames of one byte. -/
def smallCall (n : Nat) : StoreCall where
  dontPlayMute := false
  traced := false
  header := ⟨7, 1024⟩
  memory k := if k = 0 then .ofNat n else 0x9c
  bufferBytes := n + 1
  bufferBytes_pos := Nat.succ_pos n
  parser _ told := if 1 ≤ told then some 1 else none
  parser_bound _ told n h := oneByte_bound told n h
  refill _ := 0
  stale _ := (0, 0)

/-- The frames of the packet that is stored first. -/
def smallPacket (n : Nat) : List SbcNode := (storePacket (smallCall n) emptyStore).2.list

theorem produced_smallPacket {n : Nat} (h : smallPacket n ≠ []) :
    Produced (storePacket (smallCall n) emptyStore).2.toSbcStore [] [smallPacket n] :=
  .stored (smallCall n) rfl (.empty rfl) h

/-- Of a packet of four frames the first has been removed: the loop gives up at the last one. -/
theorem smallPacket_not_discardsWhole :
    ∃ s lead, Produced s lead [] ∧ discardsPacket 1 s.list = .error .assertion ∧
      ¬DiscardsWhole [] 1 (discardsPacket 1 s.list) := by
  have hproduced := produced_smallPacket (show smallPacket 4 ≠ [] by decide)
  obtain ⟨first, rest, hfirst⟩ : ∃ first rest, smallPacket 4 = first :: rest := ⟨_, _, rfl⟩
  rw [hfirst] at hproduced
  have hfails : discardsPacket 1 (smallPacket 4).tail = .error .assertion := by decide
  exact ⟨_, _, .removedFirst hproduced, hfails, fun h =>
    not_discardsWhole_error .assertion (hfails ▸ h)⟩

/-- The packet is discarded as a whole. -/
theorem discardsWhole_iff_smallPacket :
    DiscardsWhole [smallPacket 4] 1
      (discardsPacket 1 (storePacket (smallCall 4) emptyStore).2.list) := by
  refine (discardsWhole_iff _ [] [smallPacket 4] 1 (produced_smallPacket (by decide))).mpr ?_
  obtain ⟨node, rest, hlist⟩ : ∃ node rest, smallPacket 4 = node :: rest := ⟨_, _, rfl⟩
  have hskipped : skipped (smallPacket 4) = 0 := by decide
  have htotal : node.frame.totalSubSequenceNumber.toNat = 4 := by
    have hhead : (smallPacket 4).head?.map (·.frame.totalSubSequenceNumber.toNat) = some 4 := by
      decide
    simpa [hlist] using hhead
  have hlength : (smallPacket 4).length = 4 := by decide
  have hflatten : [] ++ [smallPacket 4].flatten = smallPacket 4 := by simp
  have htake : ([smallPacket 4].take 1).flatten.length = 4 := by simpa using hlength
  unfold NumbersFit
  dsimp only
  rw [hflatten, hskipped, hlength, htake, List.drop_zero, hlist]
  dsimp only
  rw [htotal]
  exact ⟨by decide, by decide, by simp [Wraps]⟩

end EarbudFirmware.A2dp
