import EarbudFirmware.A2dp.SbcAdjust

/-!
# A packet is stored as a whole or not at all

A packet is stored when its cut comes to the end. The repeats for lost packets go in front of its
frames, and the check of the list counts the frames that the peer announces, not those that the cut
finds.

## Main results

* `recover_spec` — the recovery appends repeats of the first frame
* `storedWhole_iff` — the packets that are stored as a whole or not at all
-/

namespace EarbudFirmware.A2dp

namespace StoreCall

variable (c : StoreCall)

/-! ### The recovery copies -/

theorem recoverLoop_spec (raw : SbcNode) (missing : Nat) (w : Storing) :
    ∃ copies, (c.recoverLoop raw missing w).list = w.list ++ copies ∧
      copies.length = missing ∧
      (∀ node ∈ copies, node.frame.sequenceNumber = 0xFFFF ∧ node.frame.timestamp = 0xFFFFFFFF ∧
        node.frame.sbcBuffer = raw.frame.sbcBuffer) ∧
      (c.recoverLoop raw missing w).reads = w.reads := by
  induction missing generalizing w with
  | zero => exact ⟨[], by simp [recoverLoop], rfl, by simp, rfl⟩
  | succ missing ih =>
    let f : SbcDecoderFrame :=
      ⟨0xFFFF, 0xFFFFFFFF, (c.stale w.next).1, (c.stale w.next).2, raw.frame.sbcBuffer⟩
    obtain ⟨copies, hlist, hlength, hcopies, hreads⟩ :=
      ih { (w.subframeMalloc f).2 with list := w.list ++ [(w.subframeMalloc f).1] }
    refine ⟨(w.subframeMalloc f).1 :: copies, ?_, by rw [List.length_cons, hlength], ?_, hreads⟩
    · rw [← List.append_cons] at hlist
      exact hlist
    · intro node hnode
      rcases List.mem_cons.mp hnode with rfl | hnode
      · exact ⟨rfl, rfl, rfl⟩
      · exact hcopies node hnode

/-- The recovery appends repeats of the first frame, as many as the packet calls for. -/
theorem recover_spec {s : SbcStore} {frames : List SbcNode} {lens : List Nat} {w : Storing}
    (h : Kept s frames [] w) (hlens : frames.length = lens.length) :
    ∃ copies, (c.recover frames.head? w).list = s.list ++ copies ∧
      copies.length = c.recoverCnt s lens ∧ (∀ node ∈ copies, RecoveryCopy frames node) ∧
      (c.recover frames.head? w).reads = w.reads := by
  have hlist : w.list = s.list := h.list_eq
  -- no copy is made
  have hnone (hcnt : c.recoverCnt s lens = 0) : ∃ copies : List SbcNode,
      w.list = s.list ++ copies ∧ copies.length = c.recoverCnt s lens ∧
        (∀ node ∈ copies, RecoveryCopy frames node) ∧ w.reads = w.reads :=
    ⟨[], by simp [hlist], hcnt.symm, by simp, rfl⟩
  unfold recover
  split
  · next hadjusts => exact hnone (by simp [recoverCnt, hadjusts])
  · next hadjusts =>
    dsimp only [recoverProc]
    cases frames with
    | nil =>
      have hnil : lens = [] := List.length_eq_zero_iff.mp hlens.symm
      exact hnone (by simp [recoverCnt, hnil])
    | cons raw frames =>
      have hne : lens ≠ [] := by
        rintro rfl
        simp at hlens
      rw [List.head?_cons]
      dsimp only
      rw [h.lastValid_eq, hlist]
      split
      · next hmissing =>
        obtain ⟨copies, hcopied, hlength, hcopies, hreads⟩ :=
          c.recoverLoop_spec raw (recoverFindMissing s.lastValid c.header c.frameNum) w
        refine ⟨copies, by rw [hcopied, hlist], ?_, fun node hnode => ?_, hreads⟩
        · rw [hlength, recoverCnt]
          exact (if_pos ⟨by simpa using hadjusts, hne, hmissing.2⟩).symm
        · obtain ⟨hseq, htimestamp, hbuffer⟩ := hcopies node hnode
          exact ⟨hseq, htimestamp, raw, rfl, hbuffer⟩
      · next hmissing =>
        refine hnone ?_
        rw [recoverCnt]
        split
        · next hroom => exact Classical.not_not.mp fun hsome => hmissing ⟨hsome, hroom.2.2⟩
        · rfl

end StoreCall

/-! ### A list that has changed -/

theorem filter_fresh {s : SbcStore} {nodes : List SbcNode}
    (h : ∀ node ∈ nodes, s.next ≤ node.addr) :
    nodes.filter (fun node => decide (node.addr < s.next)) = [] := by
  rw [List.filter_eq_nil_iff]
  intro node hnode
  simpa using h node hnode

theorem filter_owned {s : SbcStore} {nodes : List SbcNode} (h : ∀ node ∈ nodes, node ∈ s.list)
    (hs : s.Owned) : nodes.filter (fun node => decide (node.addr < s.next)) = nodes := by
  rw [List.filter_eq_self]
  intro node hnode
  simpa using hs node (h node hnode)

/-- A changed list does not become the old one by frames behind it. -/
theorem StoreCall.Changed.ne {s : SbcStore} {frames : List SbcNode} {w : Storing}
    (h : StoreCall.Changed s frames w) (hs : s.Owned) {rest : List SbcNode}
    (hrest : ∀ node ∈ rest, s.next ≤ node.addr) (tail : List SbcNode) :
    w.list ++ rest ≠ s.list ++ tail := by
  intro heq
  rcases h with hlost | ⟨pushed, hpushed, hkept⟩
  · -- fewer of the old frames are on the left
    obtain ⟨pushed, p, hlist, hp, hple, hfresh⟩ := hlost.list_eq
    have hold := congrArg (List.filter fun node => decide (node.addr < s.next)) heq
    rw [hlist, List.filter_append, List.filter_append, List.filter_append, filter_fresh hfresh,
      filter_fresh hrest, filter_owned (fun _ => List.mem_of_mem_drop) hs,
      filter_owned (fun _ => id) hs, List.nil_append, List.append_nil] at hold
    have hlength := congrArg List.length hold
    rw [List.length_append, List.length_drop] at hlength
    omega
  · -- the first frame on the left is new
    obtain ⟨x, pushed, rfl⟩ := List.exists_cons_of_ne_nil hpushed
    obtain ⟨y, ys, hold⟩ := List.exists_cons_of_ne_nil fun hnil =>
      absurd (hkept.pushed_nil hnil) (List.cons_ne_nil _ _)
    rw [hkept.list_eq, hold] at heq
    have hxy : x = y := (List.cons.inj heq).1
    have hnew := hkept.pushed_fresh x List.mem_cons_self
    have hnext := hs y (hold ▸ List.mem_cons_self)
    rw [hxy] at hnew
    exact Nat.lt_irrefl _ (Nat.lt_of_lt_of_le hnext hnew)

/-! ### The contract -/

variable {c : StoreCall} {s : SbcStore}

/-- A packet that is rejected where nothing has been allocated. -/
theorem storedWhole_rejected {ret : StoreRet} {w : Storing} (hret : ret ≠ .noError)
    (hlist : w.list = s.list) (hallocated : w.allocated = []) :
    StoredWhole c s (ret, w) ↔ c.Inside w := by
  constructor
  · exact fun h => h.inside
  · exact fun h =>
      { inside := h
        bounded := fun hbound => by rwa [hlist]
        atomic := .inl ⟨hret, hlist, by simp [hallocated]⟩ }

theorem inside_begin : c.Inside s.begin := by
  intro r hr
  rw [List.mem_singleton.mp hr]
  exact c.bufferBytes_pos

/-- A packet whose cut stops at an error. -/
theorem storedWhole_findErr {frames : List SbcNode} {w : Storing} (h : Kept s frames [] w) :
    StoredWhole c s (.decodeError, { w with freed := w.freed ++ frames.map SbcNode.addr }) ↔
      c.Inside w := by
  constructor
  · exact fun h => h.inside
  · intro hinside
    refine
      { inside := hinside
        bounded := fun hbound => ?_
        atomic := .inl ⟨by simp, h.list_eq, fun a ha => ?_⟩ }
    · rw [show ({ w with freed := w.freed ++ frames.map SbcNode.addr } : Storing).list = s.list
        from h.list_eq]
      exact hbound
    · rcases h.accounted a ha with ha | ha | ha
      · exact List.mem_append_left _ ha
      · exact List.mem_append_right _ ha
      · cases ha

/-- A packet whose cut comes to the end. -/
theorem storedWhole_done {frames : List SbcNode} {lens : List Nat} {w : Storing}
    (h : Kept s frames [] w) (hframes : frames.map SbcNode.frame = c.framesFrom 0 0 lens)
    (hend : c.payloadBytes ≤ lens.sum) (hbound : s.list.length < sbcMtuLimiter)
    (hinside : c.Inside w ↔ lens.sum ≤ c.payloadBytes) :
    StoredWhole c s (.noError, { c.recover frames.head? w with
        list := (c.recover frames.head? w).list ++ frames }) ↔
      lens.sum ≤ c.payloadBytes ∧
        s.list.length + c.recoverCnt s lens + lens.length < sbcMtuLimiter := by
  have hlens : frames.length = lens.length := by
    rw [← c.length_framesFrom 0 0, ← hframes, List.length_map]
  obtain ⟨copies, hlist, hlength, hcopies, hreads⟩ := c.recover_spec h hlens
  have hcount : ((c.recover frames.head? w).list ++ frames).length =
      s.list.length + c.recoverCnt s lens + lens.length := by
    rw [hlist, List.length_append, List.length_append, hlength, hlens]
  constructor
  · intro hwhole
    refine ⟨hinside.mp fun r hr => hwhole.inside r (hreads ▸ hr), ?_⟩
    rw [← hcount]
    exact hwhole.bounded hbound
  · rintro ⟨hsum, hroom⟩
    exact
      { inside := fun r hr => hinside.mpr hsum r (hreads ▸ hr)
        bounded := fun _ => hcount ▸ hroom
        atomic := .inr ⟨rfl, copies, frames, by rw [hlist], hcopies,
          c.carriesPayload hframes (Nat.le_antisymm hsum hend)⟩ }

/-- A list that has changed, or a leak, breaks the contract. -/
theorem not_storedWhole_changed (hs : s.Owned) {frames : List SbcNode} {w : Storing}
    (h : StoreCall.Changed s frames w) {ret : StoreRet} {out : Storing} (rest : List SbcNode)
    (hrest : ∀ node ∈ rest, s.next ≤ node.addr) (hlist : out.list = w.list ++ rest) :
    ¬StoredWhole c s (ret, out) := by
  intro hwhole
  rcases hwhole.atomic with ⟨-, hsame, -⟩ | ⟨-, copies, stored, happended, -⟩
  · exact h.ne hs hrest [] (by rw [← hlist, List.append_nil]; exact hsame)
  · refine h.ne hs hrest (copies ++ stored) ?_
    rw [← hlist, ← List.append_assoc]
    exact happended

theorem not_storedWhole_leak {w : Storing} (h : Leak w) : ¬StoredWhole c s (.syncError, w) := by
  obtain ⟨a, hallocated, hfreed⟩ := h
  intro hwhole
  rcases hwhole.atomic with ⟨-, -, hall⟩ | ⟨hret, -⟩
  · exact hfreed (hall a hallocated)
  · cases hret

/-- A packet whose loop is entered. -/
theorem storedWhole_loop (hs : s.Owned) (hnum : c.frameNum ≠ 0)
    (hroom : s.list.length + c.frameNum < sbcMtuLimiter) :
    StoredWhole c s (storePacket c s) ↔
      c.Settles s ∧ c.CutFits s (c.cut frameListMax 0).1 (c.cut frameListMax 0).2 := by
  have hleaves := StoreCall.storeLoop_settles hs hroom
  have hframes := c.storeLoop_frames frameListMax 0 [] s.begin
  have hreads := @StoreCall.storeLoop_reads c frameListMax 0 [] s.begin fun _ => Nat.zero_le _
  rw [storePacket, if_neg hnum, if_pos hroom]
  generalize c.storeLoop frameListMax 0 [] s.begin = r at hleaves hframes hreads ⊢
  cases hleaves with
  | leaks hnot hleak => exact iff_of_false (not_storedWhole_leak hleak) fun h => hnot h.1
  | @changed e frames w hnot hend hchanged =>
    refine iff_of_false ?_ fun h => hnot h.1
    have hfresh : ∀ node ∈ frames, s.next ≤ node.addr := by
      rcases hchanged with hlost | ⟨_, -, hkept⟩
      · exact hlost.fresh
      · exact hkept.fresh
    cases e with
    | sync => exact absurd rfl hend
    | findErr => exact not_storedWhole_changed hs hchanged [] (by simp) (by simp)
    | done =>
      -- only the build that adjusts comes here, and it has no recovery
      have hadjusts : c.dontPlayMute = true :=
        Classical.not_not.mp fun h => hnot fun hd => absurd hd h
      refine not_storedWhole_changed hs hchanged frames hfresh ?_
      simp only [StoreCall.recover, hadjusts, if_true]
  | @kept e frames w hsettles hend hkept =>
    rw [and_iff_right hsettles]
    obtain ⟨hloopEnd, hcut⟩ := hframes.resolve_left hend
    have hinside := (hreads hend).trans (and_iff_right inside_begin)
    dsimp only at hloopEnd hcut hinside
    cases hcutEnd : (c.cut frameListMax 0).2 with
    | refused =>
      rw [hcutEnd] at hloopEnd hinside
      obtain rfl : e = .findErr := hloopEnd
      rw [storedWhole_findErr hkept, hinside]
      simp [StoreCall.CutInside, StoreCall.CutFits]
    | full =>
      rw [hcutEnd] at hloopEnd hinside
      obtain rfl : e = .findErr := hloopEnd
      rw [storedWhole_findErr hkept, hinside]
      simp [StoreCall.CutInside, StoreCall.CutFits]
    | whole =>
      have hle := c.le_of_cut_whole hcutEnd
      rw [hcutEnd] at hloopEnd hinside
      obtain rfl : e = .done := hloopEnd
      rw [Nat.zero_add] at hle
      refine storedWhole_done hkept hcut hle (by omega) ?_
      rw [hinside]
      simp [StoreCall.CutInside]

/-- A packet is stored as a whole or not at all, with no byte outside it read and the list below
its limit, exactly when it fits. -/
theorem storedWhole_iff (c : StoreCall) (s : SbcStore) (hs : s.Owned) :
    StoredWhole c s (storePacket c s) ↔ c.Fits s := by
  by_cases hnum : c.frameNum = 0
  · rw [storePacket, if_pos hnum]
    have hdump : StoredWhole c s (.decodeError, c.dump8 0 s.begin) ↔
        c.Inside (c.dump8 0 s.begin) := by
      refine storedWhole_rejected (by simp) ?_ ?_
      · unfold StoreCall.dump8
        split <;> rfl
      · unfold StoreCall.dump8
        split <;> rfl
    rw [hdump, c.inside_dump8, and_iff_right inside_begin]
    exact ⟨fun h => ⟨fun _ => h, fun hpos => absurd hnum (Nat.ne_of_gt hpos)⟩, fun h => h.1 hnum⟩
  · by_cases hroom : s.list.length + c.frameNum < sbcMtuLimiter
    · rw [storedWhole_loop hs hnum hroom]
      exact ⟨fun h => ⟨fun hzero => absurd hzero hnum, fun _ _ => h⟩,
        fun h => h.2 (Nat.pos_of_ne_zero hnum) hroom⟩
    · rw [storePacket, if_neg hnum, if_neg hroom]
      refine iff_of_true ((storedWhole_rejected (by simp) rfl rfl).mpr inside_begin) ?_
      exact ⟨fun hzero => absurd hzero hnum, fun _ h => absurd h hroom⟩

/-- Two frames of 12 bytes are announced, and the packet ends within the second. The parser is told
20 bytes for both. -/
def truncatedCall : StoreCall where
  dontPlayMute := false
  traced := false
  header := ⟨7, 1024⟩
  memory k := if k = 0 then 2 else if k = 1 ∨ k = 13 then 0x9c else 0
  bufferBytes := 21
  bufferBytes_pos := by decide
  parser _ told := if 12 ≤ told then some 12 else none
  parser_bound _ told n h := by
    simp only [Option.ite_none_right_eq_some, Option.some.injEq] at h
    omega
  refill _ := 0
  stale _ := (0, 0)

/-- The list is empty, and no packet has come. -/
def emptyStore : SbcStore := ⟨[], 0, none, 0⟩

/-- The second frame is copied from beyond the packet. -/
theorem truncatedCall_not_storedWhole :
    emptyStore.Owned ∧
      ¬StoredWhole truncatedCall emptyStore (storePacket truncatedCall emptyStore) := by
  refine ⟨fun _ hnode => absurd hnode List.not_mem_nil, fun h => ?_⟩
  have hread : (13, 12) ∈ (storePacket truncatedCall emptyStore).2.reads := by decide
  exact absurd (h.inside _ hread) (by decide)

/-- The same packet, with the bytes of the second frame. -/
def wholeCall : StoreCall := { truncatedCall with
  bufferBytes := 25
  bufferBytes_pos := by decide }

theorem storedWhole_iff_wholeCall :
    StoredWhole wholeCall emptyStore (storePacket wholeCall emptyStore) :=
  (storedWhole_iff wholeCall emptyStore fun _ hnode => absurd hnode List.not_mem_nil).mpr
    ⟨fun hzero => absurd hzero (by decide), fun _ _ =>
      ⟨fun hadjusts => absurd hadjusts (by decide), by
        rw [show wholeCall.cut frameListMax 0 = ([12, 12], .whole) from by decide]
        exact ⟨by decide, by decide⟩⟩⟩

end EarbudFirmware.A2dp
