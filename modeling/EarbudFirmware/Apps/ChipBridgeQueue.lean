import EarbudFirmware.Apps.ChipBridge

/-!
# The receive queue of the chip bridge

Received blocks wait for `app_chip_bridge_rx_thread` in a byte queue, each behind the two bytes of
its length. The thread copies the oldest one to its buffer and clears its bytes in the queue.

## Main definitions

* `queuePush`, `queueGetNextEntryLength`, `queuePop` — the functions of the queue
* `Holds` — the blocks that a queue holds

## Main results

* `holds_queuePush` — a block that fits is put behind the others
* `queueGetNextEntryLength_eq`, `queuePop_spec` — the oldest block is read, and removed
-/

namespace EarbudFirmware.ChipBridge

open NorMemory (Content overlay InRange)
open CQueue (Pieces fill)

/-- `APP_CHIP_BRIDGE_RX_BUFF_SIZE`. -/
def rxBuffSize : Nat := 5160

/-- `app_chip_bridge_queue_push`. -/
def queuePush (q : CQueue) (data : List UInt8) : CQueue :=
  let dataLen := data.length % 0x10000
  if 0 < data.length ∧ dataLen + 2 ≤ q.availableOfCQueue then
    let q := (q.enCQueue (fun i => (leBytes 2 dataLen).getD i 0) 2).getD q
    (q.enCQueue (fun i => data.getD i 0) data.length).getD q
  else q

/-- `app_chip_bridge_queue_get_next_entry_length`. -/
def queueGetNextEntryLength (q : CQueue) : Nat :=
  match q.peekCQueue 2 with
  | some p => leAt (p.bytes q) 0 2
  | none => 0

/-- The two pieces are filled with zeros. -/
def clearPieces (p : Pieces) (base : Content) : Content :=
  overlay (p.e2.getD 0) p.len2 (fun _ => 0) (overlay p.e1 p.len1 (fun _ => 0) base)

/-- `app_chip_bridge_queue_pop` into the buffer `buff`. -/
def queuePop (q : CQueue) (buff : Content) (len : Nat) : CQueue × Content :=
  let q := (q.deCQueueNull 2).getD q
  match q.peekCQueue len with
  | some p =>
    if len = p.len1 + p.len2 then
      let q' := (q.deCQueueNull len).getD q
      ({ q' with base := clearPieces p q'.base }, p.copy q buff)
    else (q, overlay 0 len (fun _ => 0) buff)
  | none => (q, overlay 0 len (fun _ => 0) buff)

variable {q : CQueue} {blocks : List (List UInt8)} {b data : List UInt8} {buff : Content}
  {p : Pieces} {len : Nat}

/-! ### The popped bytes are cleared -/

/-- The two pieces are the block that is read next. -/
theorem written_clearPieces (h : q.WellFormed) (hlen : len ≤ q.len)
    (hp : q.peekCQueue len = some p) :
    Ring.Written q.base (clearPieces p q.base) q.size q.read len fun _ => 0 := by
  have hr := h.read_lt
  have hq := h.len_le
  unfold CQueue.peekCQueue at hp
  split at hp
  · cases hp
  · split at hp
    next hone =>
      obtain rfl := Option.some.inj hp
      unfold clearPieces
      rw [NorMemory.overlay_none]
      by_cases hend : q.read + len < q.size
      · exact CQueue.written_one hend
      · -- the block ends with the buffer, and has one piece all the same
        have hlen' : len = q.size - q.read := by
          rcases hone with hone | hone
          · have hw := h.write_eq
            rw [Ring.index_eq hr hq] at hw
            split_ifs at hw <;> omega
          · omega
        have htwo := @CQueue.written_two (fun _ => 0) len q.base q.read q.size hr
          (Nat.le_of_eq hlen'.symm) (Nat.le_trans hlen hq)
        rw [← hlen', Nat.sub_self, NorMemory.overlay_none] at htwo
        exact htwo
    next hone =>
      obtain rfl := Option.some.inj hp
      exact CQueue.written_two hr (by omega) (Nat.le_trans hlen hq)

/-- Clearing the popped bytes leaves the others. -/
theorem cells_clearPieces (h : q.WellFormed) (hlen : len ≤ q.len)
    (hp : q.peekCQueue len = some p) :
    Ring.cells (clearPieces p q.base) q.size ((q.read + len) % q.size) (q.len - len) =
      Ring.cells q.base q.size ((q.read + len) % q.size) (q.len - len) := by
  have hq := h.len_le
  refine Ring.cells_congr fun i hi => (written_clearPieces h hlen hp).frame _ fun j hj => ?_
  rw [Nat.mod_add_mod, add_assoc]
  exact Ring.index_ne (by omega) (by omega) (by omega)

/-! ### The blocks of a queue -/

/-- A block behind the bytes of its length. -/
def entry (b : List UInt8) : List UInt8 := leBytes 2 b.length ++ b

/-- The queue holds `blocks`, the oldest one first. -/
structure Holds (q : CQueue) (blocks : List (List UInt8)) : Prop where
  wellFormed : q.WellFormed
  contents : q.contents = blocks.flatMap entry
  length : ∀ b ∈ blocks, 0 < b.length ∧ b.length < 0x10000

theorem length_entry : (entry b).length = b.length + 2 := by
  rw [entry, List.length_append, length_leBytes, Nat.add_comm]

theorem holds_init : Holds (CQueue.initCQueue rxBuffSize fun _ => 0) [] where
  wellFormed := CQueue.wellFormed_initCQueue (by decide)
  contents := rfl
  length := fun _ hb => absurd hb List.not_mem_nil

/-- A block that fits is put behind the others. -/
theorem holds_queuePush (h : Holds q blocks) (hpos : 0 < data.length)
    (hlt : data.length < 0x10000) (hfits : data.length + 2 ≤ q.availableOfCQueue) :
    Holds (queuePush q data) (blocks ++ [data]) := by
  have hq := h.wellFormed.len_le
  unfold CQueue.availableOfCQueue at hfits
  obtain ⟨q₁, he₁, hwf₁, hsize₁, hc₁⟩ := @CQueue.enCQueue_spec q
    (fun i => (leBytes 2 data.length).getD i 0) 2 h.wellFormed (by omega)
  have hlen₁ : q₁.len = q.len + 2 := by
    rw [← CQueue.length_contents, hc₁]
    simp
  obtain ⟨q₂, he₂, hwf₂, -, hc₂⟩ := @CQueue.enCQueue_spec q₁ (fun i => data.getD i 0) data.length
    hwf₁ (by omega)
  have hpush : queuePush q data = q₂ := by
    unfold queuePush
    dsimp only
    rw [Nat.mod_eq_of_lt hlt, if_pos ⟨hpos, hfits⟩, he₁, Option.getD_some, he₂, Option.getD_some]
  have hlength : (List.range 2).map (fun i => (leBytes 2 data.length).getD i 0) =
      leBytes 2 data.length := by
    have hmap := @map_range_getD (leBytes 2 data.length)
    rwa [length_leBytes] at hmap
  refine ⟨hpush ▸ hwf₂, ?_, fun b hb => ?_⟩
  · have hlast : [data].flatMap entry = leBytes 2 data.length ++ data := List.append_nil _
    rw [hpush, hc₂, hc₁, hlength, map_range_getD, h.contents, List.flatMap_append, hlast,
      List.append_assoc]
  · rcases List.mem_append.mp hb with hb | hb
    · exact h.length b hb
    · rw [List.mem_singleton.mp hb]
      exact ⟨hpos, hlt⟩

/-- The length of the oldest block. -/
theorem queueGetNextEntryLength_eq (h : Holds q (b :: blocks)) :
    queueGetNextEntryLength q = b.length := by
  have hlt := (h.length b List.mem_cons_self).2
  have hcontents : q.contents = entry b ++ blocks.flatMap entry := h.contents
  have hlen : 2 ≤ q.len := by
    rw [← CQueue.length_contents, hcontents, List.length_append, length_entry]
    omega
  obtain ⟨p, hp, -, hbytes⟩ := CQueue.peekCQueue_spec h.wellFormed hlen
  unfold queueGetNextEntryLength
  rw [hp]
  dsimp only
  rw [hbytes, hcontents, leAt_take (by omega), entry, List.append_assoc, leAt_leBytes]
  exact Nat.mod_eq_of_lt hlt

/-- The oldest block is copied to the buffer and removed. -/
theorem queuePop_spec (h : Holds q (b :: blocks)) :
    Holds (queuePop q buff b.length).1 blocks ∧ (queuePop q buff b.length).2 = fill b buff := by
  have hcontents : q.contents = entry b ++ blocks.flatMap entry := h.contents
  have hqlen : q.len = b.length + 2 + (blocks.flatMap entry).length := by
    rw [← CQueue.length_contents, hcontents, List.length_append, length_entry]
  obtain ⟨q₁, he₁, hwf₁, hsize₁, hc₁⟩ := @CQueue.deCQueueNull_spec q 2 h.wellFormed (by omega)
  have hrest : q₁.contents = b ++ blocks.flatMap entry := by
    rw [hc₁, hcontents, entry, List.append_assoc, List.drop_left' length_leBytes]
  have hlen₁ : b.length ≤ q₁.len := by
    rw [← CQueue.length_contents, hrest, List.length_append]
    omega
  obtain ⟨p, hp, hsum, hbytes⟩ := CQueue.peekCQueue_spec hwf₁ hlen₁
  obtain ⟨q₂, he₂, hwf₂, -, hc₂⟩ := CQueue.deCQueueNull_spec hwf₁ hlen₁
  have hpop : queuePop q buff b.length =
      ({ q₂ with base := clearPieces p q₂.base }, p.copy q₁ buff) := by
    unfold queuePop
    dsimp only
    rw [he₁, Option.getD_some, hp]
    dsimp only
    rw [if_pos hsum, he₂, Option.getD_some]
  have hcells := cells_clearPieces hwf₁ hlen₁ hp
  rw [hpop]
  dsimp only
  refine ⟨⟨⟨hwf₂.read_lt, hwf₂.len_le, hwf₂.write_eq⟩, ?_,
    fun c hc => h.length c (List.mem_cons_of_mem _ hc)⟩, ?_⟩
  · have hblocks : q₂.contents = blocks.flatMap entry := by
      rw [hc₂, hrest, List.drop_left]
    rw [← hblocks]
    unfold CQueue.deCQueueNull at he₂
    split at he₂
    · cases he₂
    · obtain rfl := Option.some.inj he₂
      rw [if_pos (Nat.zero_lt_of_lt hwf₁.read_lt)]
      exact hcells
  · rw [CQueue.Pieces.copy_eq, hbytes, hrest, List.take_left]

end EarbudFirmware.ChipBridge
