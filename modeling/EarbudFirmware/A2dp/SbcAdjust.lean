import EarbudFirmware.A2dp.SbcCut

/-!
# The adjustments of the SBC store

In the build that adjusts, the loop takes a frame off the front of the list, or puts one there, at
every frame it finds. The old frames are behind those that have been put in front, or one of them is
gone for good.

## Main definitions

* `Kept`, `Lost` — what the list has become
* `Leak` — a buffer that nothing frees

## Main results

* `packetAdjust_kept`, `packetAdjust_lost` — what one adjustment does
* `storeLoop_settles` — the loop leaves the list as it was exactly when its adjustments cancel out
-/

namespace EarbudFirmware.A2dp

/-! ### What the adjustments do to the list -/

/-- A buffer that the call has allocated is not freed. -/
def Leak (w : Storing) : Prop := ∃ a ∈ w.allocated, a ∉ w.freed

/-- The buffers in the list, and those that have been freed, are not the ones the heap gives next,
and the frames of the packet are in new buffers. -/
structure Walking (s : SbcStore) (frames : List SbcNode) (w : Storing) : Prop where
  next_le : s.next ≤ w.next
  list_lt : ∀ node ∈ w.list, node.addr < w.next
  freed_lt : ∀ a ∈ w.freed, a < w.next
  fresh : ∀ node ∈ frames, s.next ≤ node.addr
  lastValid_eq : w.lastValid = s.lastValid

/-- The list is the old one behind the frames that have been put in front of it, and every buffer
that is not freed belongs to one of those or to the packet. -/
structure Kept (s : SbcStore) (frames pushed : List SbcNode) (w : Storing) : Prop
    extends Walking s frames w where
  list_eq : w.list = pushed ++ s.list
  pushed_fresh : ∀ node ∈ pushed, s.next ≤ node.addr
  pushed_nil : s.list = [] → pushed = []
  accounted : ∀ a ∈ w.allocated,
    a ∈ w.freed ∨ a ∈ frames.map SbcNode.addr ∨ a ∈ pushed.map SbcNode.addr

/-- Frames of the old list are gone. -/
structure Lost (s : SbcStore) (frames : List SbcNode) (w : Storing) : Prop
    extends Walking s frames w where
  list_eq : ∃ pushed p, w.list = pushed ++ s.list.drop p ∧ 0 < p ∧ p ≤ s.list.length ∧
    ∀ node ∈ pushed, s.next ≤ node.addr

theorem SbcStore.Owned.kept {s : SbcStore} (hs : s.Owned) : Kept s [] [] s.begin where
  next_le := Nat.le_refl _
  list_lt := hs
  freed_lt := by simp [SbcStore.begin]
  fresh := by simp
  lastValid_eq := rfl
  list_eq := rfl
  pushed_fresh := by simp
  pushed_nil _ := rfl
  accounted := by simp [SbcStore.begin]

section Copy

variable {s : SbcStore} {frames pushed : List SbcNode} {w : Storing}

/-- What a read leaves. -/
theorem Kept.read (h : Kept s frames pushed w) (offset n : Nat) :
    Kept s frames pushed (w.read offset n) := { h with }

theorem Lost.read (h : Lost s frames w) (offset n : Nat) : Lost s frames (w.read offset n) :=
  { h with }

theorem Kept.dump8 (h : Kept s frames pushed w) (c : StoreCall) (offset : Nat) :
    Kept s frames pushed (c.dump8 offset w) := by
  unfold StoreCall.dump8
  split
  · exact h.read offset 12
  · exact h

theorem Lost.dump8 (h : Lost s frames w) (c : StoreCall) (offset : Nat) :
    Lost s frames (c.dump8 offset w) := by
  unfold StoreCall.dump8
  split
  · exact h.read offset 12
  · exact h

theorem Walking.subframeMalloc (h : Walking s frames w) (f : SbcDecoderFrame) :
    Walking s (frames ++ [(w.subframeMalloc f).1]) (w.subframeMalloc f).2 where
  next_le := Nat.le_succ_of_le h.next_le
  list_lt node hnode := Nat.lt_succ_of_lt (h.list_lt node hnode)
  freed_lt a ha := Nat.lt_succ_of_lt (h.freed_lt a ha)
  fresh node hnode := by
    rcases List.mem_append.mp hnode with hnode | hnode
    · exact h.fresh node hnode
    · rw [List.mem_singleton.mp hnode]
      exact h.next_le
  lastValid_eq := h.lastValid_eq

/-- A new buffer is a leak as long as nothing frees it. -/
theorem Walking.leak (h : Walking s frames w) (f : SbcDecoderFrame) :
    Leak (w.subframeMalloc f).2 :=
  ⟨w.next, by simp [Storing.subframeMalloc], fun ha => Nat.lt_irrefl _ (h.freed_lt _ ha)⟩

theorem Kept.subframeMalloc (h : Kept s frames pushed w) (f : SbcDecoderFrame) :
    Kept s (frames ++ [(w.subframeMalloc f).1]) pushed (w.subframeMalloc f).2 :=
  { h.toWalking.subframeMalloc f with
    list_eq := h.list_eq
    pushed_fresh := h.pushed_fresh
    pushed_nil := h.pushed_nil
    accounted := by
      intro a ha
      rcases List.mem_append.mp ha with ha | ha
      · refine (h.accounted a ha).imp id (Or.imp (fun hin => ?_) id)
        rw [List.map_append]
        exact List.mem_append_left _ hin
      · rw [List.mem_singleton.mp ha]
        exact .inr (.inl (by simp [Storing.subframeMalloc])) }

theorem Lost.subframeMalloc (h : Lost s frames w) (f : SbcDecoderFrame) :
    Lost s (frames ++ [(w.subframeMalloc f).1]) (w.subframeMalloc f).2 :=
  { h.toWalking.subframeMalloc f with
    list_eq := h.list_eq }

end Copy

namespace StoreCall

variable (c : StoreCall)

/-- What an adjustment does: `cnt` is its number behind the refill. -/
inductive AdjustMove (frame : SbcDecoderFrame) (w : Storing) (cnt : Int) :
    Bool × Storing → Prop where
  | keeps (h : w.list = [] ∨ cnt = 0) :
      AdjustMove frame w cnt (false, { w with adjustFrameCnt := cnt })
  | pops {front : SbcNode} {rest : List SbcNode} (hcnt : cnt < 0)
      (hlist : w.list = front :: rest) :
      AdjustMove frame w cnt (false, { w with
        list := rest
        freed := w.freed ++ [front.addr]
        adjustFrameCnt := cnt + 1 })
  | pushes (f : SbcDecoderFrame) (hcnt : 0 < cnt) (hlist : w.list ≠ [])
      (hroom : w.list.length + c.frameNum < sbcMtuLimiter) :
      AdjustMove frame w cnt (false, { (w.subframeMalloc f).2 with
        list := (w.subframeMalloc f).1 :: w.list
        adjustFrameCnt := cnt - 1 })
  | syncs (hcnt : 0 < cnt) (hroom : ¬w.list.length + c.frameNum < sbcMtuLimiter) :
      AdjustMove frame w cnt (true, { w with adjustFrameCnt := cnt })

theorem packetAdjust_move (refill : Int) (frame : SbcDecoderFrame) (w : Storing) :
    c.AdjustMove frame w (refilled refill w.adjustFrameCnt) (c.packetAdjust refill frame w) := by
  unfold packetAdjust
  dsimp only
  split
  · next hneg =>
    split
    · next hlist => exact .keeps (.inl hlist)
    · next front rest hlist => exact .pops hneg hlist
  · split
    · next hpos =>
      split
      · next hroom =>
        split
        · next hlist => exact .keeps (.inl hlist)
        · next hlist => exact .pushes _ hpos (by simp [hlist]) hroom
      · next hroom => exact .syncs hpos hroom
    · next hneg hpos =>
      exact .keeps (.inr (Int.le_antisymm (Int.not_lt.mp hpos) (Int.not_lt.mp hneg)))

section Cancels

variable {c} {len pushed : Nat} {cnt refill : Int} {rest : List Int}

theorem cancels_keep (h : len + pushed = 0 ∨ refilled refill cnt = 0) :
    c.Cancels len pushed cnt (refill :: rest) ↔
      c.Cancels len pushed (refilled refill cnt) rest := by
  rw [Cancels]
  simp only [if_pos h]

theorem cancels_pop (hlen : len + pushed ≠ 0) (hcnt : refilled refill cnt < 0) :
    c.Cancels len pushed cnt (refill :: rest) ↔
      0 < pushed ∧ c.Cancels len (pushed - 1) (refilled refill cnt + 1) rest := by
  rw [Cancels]
  simp only [if_neg (not_or.mpr ⟨hlen, Int.ne_of_lt hcnt⟩), if_pos hcnt]

theorem cancels_push (hlen : len + pushed ≠ 0) (hcnt : 0 < refilled refill cnt) :
    c.Cancels len pushed cnt (refill :: rest) ↔
      len + pushed + c.frameNum < sbcMtuLimiter ∧
        c.Cancels len (pushed + 1) (refilled refill cnt - 1) rest := by
  rw [Cancels]
  simp only [if_neg (not_or.mpr ⟨hlen, Int.ne_of_gt hcnt⟩),
    if_neg (Int.not_lt.mpr (Int.le_of_lt hcnt))]

end Cancels

section Adjust

variable {c} {s : SbcStore} {frames pushed : List SbcNode} {w : Storing}

/-- What an adjustment does to a list that was kept: it is kept, with what is left to cancel out, or
the adjustments do not cancel out. -/
inductive Adjusted (c : StoreCall) (s : SbcStore) (frames pushed : List SbcNode)
    (cnt refill : Int) : Bool × Storing → Prop where
  | kept (pushed' : List SbcNode) {w' : Storing} (hkept : Kept s frames pushed' w')
      (hcancels : ∀ rest, c.Cancels s.list.length pushed.length cnt (refill :: rest) ↔
        c.Cancels s.list.length pushed'.length w'.adjustFrameCnt rest) :
      Adjusted c s frames pushed cnt refill (false, w')
  | lost {w' : Storing} (hlost : Lost s frames w')
      (hnot : ∀ rest, ¬c.Cancels s.list.length pushed.length cnt (refill :: rest)) :
      Adjusted c s frames pushed cnt refill (false, w')
  | leaks {w' : Storing} (hleak : Leak w')
      (hnot : ∀ rest, ¬c.Cancels s.list.length pushed.length cnt (refill :: rest)) :
      Adjusted c s frames pushed cnt refill (true, w')

/-- The number of frames in the list of a kept list. -/
theorem length_kept (h : Kept s frames pushed w) :
    s.list.length + pushed.length = w.list.length := by
  rw [h.list_eq, List.length_append, Nat.add_comm]

/-- The front of the list is removed and freed. -/
theorem walking_pop (h : Walking s frames w) {front : SbcNode} {rest : List SbcNode}
    (hlist : w.list = front :: rest) (cnt : Int) :
    Walking s frames { w with
      list := rest
      freed := w.freed ++ [front.addr]
      adjustFrameCnt := cnt } :=
  { h with
    list_lt := fun node hnode => h.list_lt node (hlist ▸ List.mem_cons_of_mem _ hnode)
    freed_lt := fun a ha => by
      rcases List.mem_append.mp ha with ha | ha
      · exact h.freed_lt a ha
      · rw [List.mem_singleton.mp ha]
        exact h.list_lt front (hlist ▸ List.mem_cons_self) }

/-- A new frame is put in front of the list. -/
theorem walking_push (h : Walking s frames w) (f : SbcDecoderFrame) (cnt : Int) :
    Walking s frames { (w.subframeMalloc f).2 with
      list := (w.subframeMalloc f).1 :: w.list
      adjustFrameCnt := cnt } where
  next_le := Nat.le_succ_of_le h.next_le
  list_lt node hnode := by
    rcases List.mem_cons.mp hnode with rfl | hnode
    · exact Nat.lt_succ_self _
    · exact Nat.lt_succ_of_lt (h.list_lt node hnode)
  freed_lt a ha := Nat.lt_succ_of_lt (h.freed_lt a ha)
  fresh := h.fresh
  lastValid_eq := h.lastValid_eq

theorem fresh_push (h : Walking s frames w) (f : SbcDecoderFrame)
    (hfresh : ∀ node ∈ pushed, s.next ≤ node.addr) :
    ∀ node ∈ (w.subframeMalloc f).1 :: pushed, s.next ≤ node.addr := by
  intro node hnode
  rcases List.mem_cons.mp hnode with rfl | hnode
  · exact h.next_le
  · exact hfresh node hnode

theorem adjusted_pop (h : Kept s frames pushed w) {refill cnt : Int} {front : SbcNode}
    {rest : List SbcNode} (hcnt : refilled refill cnt < 0) (hlist : w.list = front :: rest) :
    Adjusted c s frames pushed cnt refill (false, { w with
      list := rest
      freed := w.freed ++ [front.addr]
      adjustFrameCnt := refilled refill cnt + 1 }) := by
  have hlen : s.list.length + pushed.length ≠ 0 := by
    rw [length_kept h, hlist]
    exact Nat.succ_ne_zero _
  have hwalking := walking_pop h.toWalking hlist (refilled refill cnt + 1)
  have heq := hlist.symm.trans h.list_eq
  cases pushed with
  | nil =>
    -- the front is one of the old frames
    refine .lost { hwalking with list_eq := ⟨[], 1, ?_, Nat.one_pos, ?_, by simp⟩ }
      fun later hc => absurd ((cancels_pop hlen hcnt).mp hc).1 (Nat.lt_irrefl 0)
    · rw [List.nil_append] at heq
      simp [← heq]
    · rw [List.nil_append] at heq
      simp [← heq]
  | cons x pushed' =>
    rw [List.cons_append, List.cons.injEq] at heq
    obtain ⟨rfl, hrest⟩ := heq
    refine .kept pushed' { hwalking with
      list_eq := hrest
      pushed_fresh := fun node hnode => h.pushed_fresh node (List.mem_cons_of_mem _ hnode)
      pushed_nil := fun hs => by simpa using h.pushed_nil hs
      accounted := fun a ha => ?_ } fun later => ?_
    · rcases h.accounted a ha with ha | ha | ha
      · exact .inl (List.mem_append_left _ ha)
      · exact .inr (.inl ha)
      · rcases List.mem_cons.mp ha with rfl | ha
        · exact .inl (List.mem_append_right _ (List.mem_singleton_self _))
        · exact .inr (.inr ha)
    · rw [cancels_pop hlen hcnt]
      exact and_iff_right (Nat.succ_pos _)

theorem adjusted_push (h : Kept s frames pushed w) {refill cnt : Int} (f : SbcDecoderFrame)
    (hcnt : 0 < refilled refill cnt) (hlist : w.list ≠ [])
    (hroom : w.list.length + c.frameNum < sbcMtuLimiter) :
    Adjusted c s frames pushed cnt refill (false, { (w.subframeMalloc f).2 with
      list := (w.subframeMalloc f).1 :: w.list
      adjustFrameCnt := refilled refill cnt - 1 }) := by
  have hlen : s.list.length + pushed.length ≠ 0 := by
    rw [length_kept h]
    exact fun hzero => hlist (List.length_eq_zero_iff.mp hzero)
  refine .kept ((w.subframeMalloc f).1 :: pushed)
    { walking_push h.toWalking f (refilled refill cnt - 1) with
      list_eq := by rw [h.list_eq]; rfl
      pushed_fresh := fresh_push h.toWalking f h.pushed_fresh
      pushed_nil := fun hs => absurd (by rw [h.list_eq, hs, h.pushed_nil hs]; rfl) hlist
      accounted := fun a ha => ?_ } fun later => ?_
  · rcases List.mem_append.mp ha with ha | ha
    · exact (h.accounted a ha).imp id (Or.imp id (List.mem_cons_of_mem _))
    · rw [List.mem_singleton.mp ha]
      exact .inr (.inr List.mem_cons_self)
  · rw [cancels_push hlen hcnt, length_kept h]
    exact and_iff_right hroom

/-- An adjustment of a list that was kept, when a buffer is in use. -/
theorem packetAdjust_kept (h : Kept s frames pushed w) (hleak : Leak w)
    (hroom : s.list.length + c.frameNum < sbcMtuLimiter) (refill : Int)
    (frame : SbcDecoderFrame) :
    Adjusted c s frames pushed w.adjustFrameCnt refill (c.packetAdjust refill frame w) := by
  generalize hr : c.packetAdjust refill frame w = r
  have hmove := hr ▸ c.packetAdjust_move refill frame w
  cases hmove with
  | keeps hstay =>
    refine .kept pushed { h with } fun rest => cancels_keep (hstay.imp (fun hlist => ?_) id)
    rw [length_kept h, hlist, List.length_nil]
  | pops hcnt hlist => exact adjusted_pop h hcnt hlist
  | pushes f hcnt hlist hfree => exact adjusted_push h f hcnt hlist hfree
  | syncs hcnt hfull =>
    rw [← length_kept h] at hfull
    refine .leaks hleak fun rest hc => ?_
    have hlen : s.list.length + pushed.length ≠ 0 := by omega
    exact hfull ((cancels_push hlen hcnt).mp hc).1

/-- An adjustment does not bring back an old frame. -/
theorem packetAdjust_lost (h : Lost s frames w) (hleak : Leak w) (refill : Int)
    (frame : SbcDecoderFrame) :
    let r := c.packetAdjust refill frame w
    (r.1 = true ∧ Leak r.2) ∨ (r.1 = false ∧ Lost s frames r.2) := by
  dsimp only
  generalize hr : c.packetAdjust refill frame w = r
  have hmove := hr ▸ c.packetAdjust_move refill frame w
  obtain ⟨pushed, p, hlist_eq, hp, hple, hfresh⟩ := h.list_eq
  cases hmove with
  | keeps _ => exact .inr ⟨rfl, { h with }⟩
  | syncs _ _ => exact .inl ⟨rfl, hleak⟩
  | pushes f hcnt hlist hfree =>
    refine .inr ⟨rfl, { walking_push h.toWalking f _ with
      list_eq := ⟨(w.subframeMalloc f).1 :: pushed, p, ?_, hp, hple,
        fresh_push h.toWalking f hfresh⟩ }⟩
    rw [hlist_eq]
    rfl
  | @pops front rest hcnt hlist =>
    refine .inr ⟨rfl, { walking_pop h.toWalking hlist _ with list_eq := ?_ }⟩
    have heq := hlist.symm.trans hlist_eq
    cases pushed with
    | nil =>
      -- the old frames are not at their end yet
      have hdrop : s.list.drop p = front :: rest := heq.symm
      have hlt : p < s.list.length := by
        have := congrArg List.length hdrop
        simp only [List.length_drop, List.length_cons] at this
        omega
      refine ⟨[], p + 1, ?_, Nat.succ_pos p, hlt, by simp⟩
      rw [← List.drop_drop, hdrop]
      rfl
    | cons x pushed' =>
      rw [List.cons_append, List.cons.injEq] at heq
      exact ⟨pushed', p, heq.2, hp, hple,
        fun node hnode => hfresh node (List.mem_cons_of_mem _ hnode)⟩

/-- A frame that is stored in the build that adjusts. -/
theorem storeFrame_kept (h : Kept s frames pushed w) (hadjusts : c.dontPlayMute = true)
    (hroom : s.list.length + c.frameNum < sbcMtuLimiter) (k i n : Nat) :
    Adjusted c s (frames ++ [(c.storeFrame k i n w).1]) pushed w.adjustFrameCnt (c.refill k)
      (c.storeFrame k i n w).2 := by
  have hcopied := (h.read (1 + i) n).subframeMalloc (c.frameOf k i n)
  have hleak := (h.read (1 + i) n).toWalking.leak (c.frameOf k i n)
  have hadjusted := packetAdjust_kept hcopied hleak hroom (c.refill k) (c.frameOf k i n)
  simp only [storeFrame, hadjusts, if_true]
  exact hadjusted

theorem storeFrame_lost (h : Lost s frames w) (hadjusts : c.dontPlayMute = true) (k i n : Nat) :
    let r := c.storeFrame k i n w
    (r.2.1 = true ∧ Leak r.2.2) ∨ (r.2.1 = false ∧ Lost s (frames ++ [r.1]) r.2.2) := by
  have hcopied := (h.read (1 + i) n).subframeMalloc (c.frameOf k i n)
  have hleak := (h.read (1 + i) n).toWalking.leak (c.frameOf k i n)
  have hadjusted := @packetAdjust_lost c _ _ _ hcopied hleak (c.refill k) (c.frameOf k i n)
  simp only [storeFrame, hadjusts, if_true]
  exact hadjusted

/-- A frame that is stored in the build that does not adjust. -/
theorem storeFrame_plain (h : Kept s frames pushed w) (hadjusts : c.dontPlayMute = false)
    (k i n : Nat) :
    let r := c.storeFrame k i n w
    r.2.1 = false ∧ Kept s (frames ++ [r.1]) pushed r.2.2 := by
  have hcopied := (h.read (1 + i) n).subframeMalloc (c.frameOf k i n)
  simp only [storeFrame, hadjusts, Bool.false_eq_true, if_false]
  exact ⟨trivial, hcopied⟩

end Adjust

/-- The list is not the old one: old frames are gone, or new ones are in front of them. -/
def Changed (s : SbcStore) (frames : List SbcNode) (w : Storing) : Prop :=
  Lost s frames w ∨ ∃ pushed, pushed ≠ [] ∧ Kept s frames pushed w

/-- What the loop leaves: the list as it was when the adjustments are settled, else another list,
or a buffer that nothing frees. -/
inductive LoopLeaves (s : SbcStore) (settled : Prop) : LoopEnd × List SbcNode × Storing → Prop where
  | kept {e : LoopEnd} {frames : List SbcNode} {w : Storing} (h : settled) (hend : e ≠ .sync)
      (hkept : Kept s frames [] w) : LoopLeaves s settled (e, frames, w)
  | changed {e : LoopEnd} {frames : List SbcNode} {w : Storing} (h : ¬settled)
      (hend : e ≠ .sync) (hchanged : Changed s frames w) : LoopLeaves s settled (e, frames, w)
  | leaks {frames : List SbcNode} {w : Storing} (h : ¬settled) (hleak : Leak w) :
      LoopLeaves s settled (.sync, frames, w)

section Loop

variable {c} {s : SbcStore} {frames pushed : List SbcNode} {w : Storing}

/-- The loop stops on a list that was kept. -/
theorem loopLeaves_stop (h : Kept s frames pushed w) {e : LoopEnd} (hend : e ≠ .sync) (cnt : Int) :
    LoopLeaves s (c.Cancels s.list.length pushed.length cnt []) (e, frames, w) := by
  cases pushed with
  | nil => exact .kept rfl hend h
  | cons x pushed => exact .changed (Nat.succ_ne_zero _) hend (.inr ⟨x :: pushed, by simp, h⟩)

theorem storeLoop_lost {settled : Prop} (hnot : ¬settled) (hadjusts : c.dontPlayMute = true)
    (free i : Nat) (h : Lost s frames w) :
    LoopLeaves s settled (c.storeLoop free i frames w) := by
  induction free generalizing i frames w with
  | zero => exact .changed hnot (by simp) (.inl h)
  | succ free ih =>
    obtain hi | ⟨hi, hframe⟩ | ⟨n, hi, hframe⟩ := c.place_cases i
    · rw [c.storeLoop_done hi]
      exact .changed hnot (by simp) (.inl h)
    · rw [c.storeLoop_refused hi hframe]
      exact .changed hnot (by simp) (.inl ((h.read _ _).dump8 c _))
    · rw [c.storeLoop_frame hi hframe]
      dsimp only
      rcases storeFrame_lost (h.read (1 + i) 1) hadjusts frames.length i n with
        ⟨hsync, hleak⟩ | ⟨hsync, hlost⟩
      · rw [if_pos hsync]
        exact .leaks hnot hleak
      · rw [hsync, if_neg Bool.false_ne_true]
        exact ih (i + n) hlost

theorem storeLoop_kept (hadjusts : c.dontPlayMute = true)
    (hroom : s.list.length + c.frameNum < sbcMtuLimiter) (free i : Nat)
    (h : Kept s frames pushed w) :
    LoopLeaves s (c.Cancels s.list.length pushed.length w.adjustFrameCnt
      ((List.range' frames.length (c.cut free i).1.length).map c.refill))
      (c.storeLoop free i frames w) := by
  induction free generalizing i frames pushed w with
  | zero => exact loopLeaves_stop h (by simp) _
  | succ free ih =>
    obtain hi | ⟨hi, hframe⟩ | ⟨n, hi, hframe⟩ := c.place_cases i
    · rw [c.storeLoop_done hi, c.cut_done hi]
      exact loopLeaves_stop h (by simp) _
    · rw [c.storeLoop_refused hi hframe, c.cut_refused hi hframe]
      exact loopLeaves_stop ((h.read _ _).dump8 c _) (by simp) _
    · rw [c.storeLoop_frame hi hframe, c.cut_frame hi hframe, List.length_cons, List.range'_succ,
        List.map_cons]
      dsimp only
      have hstored := storeFrame_kept (h.read (1 + i) 1) hadjusts hroom frames.length i n
      generalize c.storeFrame frames.length i n (w.read (1 + i) 1) = r at hstored ⊢
      obtain ⟨node, sync, w'⟩ := r
      cases hstored with
      | leaks hleak hnot => exact .leaks (hnot _) hleak
      | lost hlost hnot => exact storeLoop_lost (hnot _) hadjusts free (i + n) hlost
      | kept pushed' hkept hcancels =>
        have hrest := ih (i + n) hkept
        rw [List.length_append, List.length_singleton] at hrest
        rw [show w.adjustFrameCnt = (w.read (1 + i) 1).adjustFrameCnt from rfl, hcancels]
        exact hrest

theorem storeLoop_plain (hadjusts : c.dontPlayMute = false) (free i : Nat)
    (h : Kept s frames [] w) :
    (c.storeLoop free i frames w).1 ≠ .sync ∧
      Kept s (c.storeLoop free i frames w).2.1 [] (c.storeLoop free i frames w).2.2 := by
  induction free generalizing i frames w with
  | zero => exact ⟨by simp [storeLoop], h⟩
  | succ free ih =>
    obtain hi | ⟨hi, hframe⟩ | ⟨n, hi, hframe⟩ := c.place_cases i
    · rw [c.storeLoop_done hi]
      exact ⟨by simp, h⟩
    · rw [c.storeLoop_refused hi hframe]
      exact ⟨by simp, (h.read _ _).dump8 c _⟩
    · rw [c.storeLoop_frame hi hframe]
      dsimp only
      obtain ⟨hsync, hkept⟩ := storeFrame_plain (h.read (1 + i) 1) hadjusts frames.length i n
      rw [hsync, if_neg Bool.false_ne_true]
      exact ih (i + n) hkept

/-- The loop leaves the list as it was exactly when the adjustments are settled. -/
theorem storeLoop_settles (hs : s.Owned) (hroom : s.list.length + c.frameNum < sbcMtuLimiter) :
    LoopLeaves s (c.Settles s) (c.storeLoop frameListMax 0 [] s.begin) := by
  cases hadjusts : c.dontPlayMute with
  | true =>
    have hsettles : c.Settles s ↔ c.Cancels s.list.length 0 s.adjustFrameCnt
        ((List.range' 0 (c.cut frameListMax 0).1.length).map c.refill) := by
      simp [Settles, hadjusts]
    rw [hsettles]
    exact storeLoop_kept hadjusts hroom frameListMax 0 hs.kept
  | false =>
    obtain ⟨hend, hkept⟩ := storeLoop_plain hadjusts frameListMax 0 hs.kept
    exact .kept (fun h => absurd (hadjusts ▸ h) Bool.false_ne_true) hend hkept

end Loop

end StoreCall

end EarbudFirmware.A2dp
