import EarbudFirmware.Lib.NorMemory
import EarbudFirmware.Lib.Ring

/-!
# The byte queue

`cqueue.c`: a circular queue of bytes in a caller's buffer. The functions copy in at most two
pieces. `none` is `CQ_ERR`, which leaves the queue and the caller's buffer as they are.

## Main definitions

* `CQueue` — `CQueue`
* `CQueue.enCQueue`, `CQueue.deCQueue`, `CQueue.peekCQueueToBuf`
* `CQueue.contents` — the bytes in the queue, oldest first

## Main results

* `enCQueue_spec`, `deCQueue_spec`, `peekCQueueToBuf_spec` — the queue is a list
-/

namespace EarbudFirmware

open NorMemory (Content overlay InRange)

/-- `CQueue`. -/
structure CQueue where
  read : Nat
  write : Nat
  size : Nat
  len : Nat
  base : Content

namespace CQueue

/-- `InitCQueue`. -/
def initCQueue (size : Nat) (base : Content) : CQueue :=
  { read := 0, write := 0, size, len := 0, base }

/-- `LengthOfCQueue`. -/
def lengthOfCQueue (q : CQueue) : Nat := q.len

/-- `AvailableOfCQueue`. -/
def availableOfCQueue (q : CQueue) : Nat := q.size - q.len

/-- `EnCQueue`. -/
def enCQueue (q : CQueue) (e : Content) (len : Nat) : Option CQueue :=
  if q.availableOfCQueue < len then none
  else
    let bytesToTheEnd := q.size - q.write
    if bytesToTheEnd > len then
      some { q with
        len := q.len + len
        base := overlay q.write len e q.base
        write := q.write + len }
    else
      let base := overlay q.write bytesToTheEnd e q.base
      let base := overlay 0 (len - bytesToTheEnd) (fun i => e (bytesToTheEnd + i)) base
      some { q with len := q.len + len, base, write := len - bytesToTheEnd }

/-- `DeCQueue` into the buffer `e`. -/
def deCQueue (q : CQueue) (e : Content) (len : Nat) : Option (CQueue × Content) :=
  if q.lengthOfCQueue < len then none
  else
    let bytesToTheEnd := q.size - q.read
    if bytesToTheEnd > len then
      some ({ q with len := q.len - len, read := q.read + len },
        overlay 0 len (fun i => q.base (q.read + i)) e)
    else
      let e := overlay 0 bytesToTheEnd (fun i => q.base (q.read + i)) e
      some ({ q with len := q.len - len, read := len - bytesToTheEnd },
        overlay bytesToTheEnd (len - bytesToTheEnd) q.base e)

/-- `PeekCQueueToBuf` into the buffer `e`, with the two pieces of `PeekCQueue`. -/
def peekCQueueToBuf (q : CQueue) (e : Content) (len : Nat) : Option Content :=
  if q.lengthOfCQueue < len then none
  else if q.write > q.read ∨ q.size - q.read ≥ len then
    some (overlay 0 len (fun i => q.base (q.read + i)) e)
  else
    let len1 := q.size - q.read
    let e := overlay 0 len1 (fun i => q.base (q.read + i)) e
    some (overlay len1 (len - len1) q.base e)

/-- The bytes in the queue, oldest first. -/
def contents (q : CQueue) : List UInt8 := Ring.cells q.base q.size q.read q.len

/-- The indices of the queue fit together. -/
structure WellFormed (q : CQueue) : Prop where
  read_lt : q.read < q.size
  len_le : q.len ≤ q.size
  write_eq : q.write = (q.read + q.len) % q.size

variable {q q' : CQueue} {e e' : Content} {len : Nat}

@[simp] theorem length_contents : q.contents.length = q.len := Ring.length_cells

theorem wellFormed_initCQueue {size : Nat} {base : Content} (h : 0 < size) :
    (initCQueue size base).WellFormed := ⟨h, Nat.zero_le _, (Nat.zero_mod _).symm⟩

@[simp] theorem contents_initCQueue {size : Nat} {base : Content} :
    (initCQueue size base).contents = [] := rfl

theorem WellFormed.write_lt (h : q.WellFormed) : q.write < q.size := by
  rw [h.write_eq]
  exact Nat.mod_lt _ (by have := h.read_lt; omega)

/-! ### Copying in two pieces -/

/-- A block that does not reach the end is written in one piece. -/
theorem written_one {base : Content} {start size : Nat} (h : start + len < size) :
    Ring.Written base (overlay start len e base) size start len e := by
  refine ⟨fun i hi => ?_, fun p hp => ?_⟩
  · rw [Nat.mod_eq_of_lt (by omega), NorMemory.overlay_of_inRange ⟨by omega, by omega⟩,
      Nat.add_sub_cancel_left]
  · refine NorMemory.overlay_of_not_inRange (fun hr => ?_) _ _
    obtain ⟨hlo, hhi⟩ := hr
    exact hp (p - start) (by omega) (by rw [Nat.mod_eq_of_lt (by omega)]; omega)

/-- A block that reaches the end is written in two pieces. -/
theorem written_two {base : Content} {start size : Nat} (hs : start < size)
    (h : size - start ≤ len) (hl : len ≤ size) :
    Ring.Written base
      (overlay 0 (len - (size - start)) (fun i => e (size - start + i))
        (overlay start (size - start) e base)) size start len e := by
  refine ⟨fun i hi => ?_, fun p hp => ?_⟩
  · rw [Ring.index_eq hs (by omega)]
    split_ifs with hend
    · -- the first piece ends with the buffer
      rw [NorMemory.overlay_of_not_inRange (fun hr => by have := hr.2; omega),
        NorMemory.overlay_of_inRange ⟨by omega, by omega⟩, Nat.add_sub_cancel_left]
    · rw [NorMemory.overlay_of_inRange ⟨by omega, by omega⟩]
      congr 1
      omega
  · rw [NorMemory.overlay_of_not_inRange (fun hr => ?_),
      NorMemory.overlay_of_not_inRange (fun hr => ?_)]
    · obtain ⟨hlo, hhi⟩ := hr
      refine hp (p - start) (by omega) ?_
      rw [Nat.mod_eq_of_lt (by omega)]
      omega
    · obtain ⟨-, hhi⟩ := hr
      refine hp (size - start + p) (by omega) ?_
      rw [Ring.index_eq hs (by omega), if_neg (by omega)]
      omega

/-- A block read in two pieces. -/
theorem read_two {base : Content} {start size : Nat} (hs : start < size)
    (h : size - start ≤ len) (hl : len ≤ size) {i : Nat} (hi : i < len) :
    overlay (size - start) (len - (size - start)) base
      (overlay 0 (size - start) (fun i => base (start + i)) e) i = base ((start + i) % size) := by
  rw [Ring.index_eq hs (by omega)]
  split_ifs with hend
  · rw [NorMemory.overlay_of_not_inRange (fun hr => by have := hr.1; omega),
      NorMemory.overlay_of_inRange ⟨by omega, by omega⟩, Nat.sub_zero]
  · rw [NorMemory.overlay_of_inRange ⟨by omega, by omega⟩]
    congr 1
    omega

/-- Nothing is read behind the block. -/
theorem read_two_of_le {base : Content} {start size : Nat} (h : size - start ≤ len) {i : Nat}
    (hi : len ≤ i) :
    overlay (size - start) (len - (size - start)) base
      (overlay 0 (size - start) (fun i => base (start + i)) e) i = e i := by
  rw [NorMemory.overlay_of_not_inRange (fun hr => by have := hr.2; omega),
    NorMemory.overlay_of_not_inRange (fun hr => by have := hr.2; omega)]

/-! ### The queue is a list -/

/-- `EnCQueue` appends the bytes when they fit. -/
theorem enCQueue_spec (h : q.WellFormed) (hlen : q.len + len ≤ q.size) :
    ∃ q', q.enCQueue e len = some q' ∧ q'.WellFormed ∧ q'.size = q.size ∧
      q'.contents = q.contents ++ (List.range len).map e := by
  have hr := h.read_lt
  have hw := h.write_lt
  have hfits : ¬q.availableOfCQueue < len := by
    unfold availableOfCQueue
    omega
  have hend : (q.read + (q.len + len)) % q.size = (q.write + len) % q.size := by
    rw [h.write_eq, Nat.mod_add_mod, add_assoc]
  unfold enCQueue
  rw [if_neg hfits]
  dsimp only
  split_ifs with hone
  · refine ⟨_, rfl, ⟨hr, hlen, ?_⟩, rfl, ?_⟩
    · rw [hend, Nat.mod_eq_of_lt (by omega)]
    · refine Ring.Written.cells_append (x := e) ?_ hlen
      rw [← h.write_eq]
      have hsize : q.write + len < q.size := by omega
      exact written_one hsize
  · refine ⟨_, rfl, ⟨hr, hlen, ?_⟩, rfl, ?_⟩
    · rw [hend, Ring.index_eq hw (by omega), if_neg (by omega)]
      show len - (q.size - q.write) = q.write + len - q.size
      omega
    · refine Ring.Written.cells_append (x := e) ?_ hlen
      rw [← h.write_eq]
      exact written_two hw (by omega) (by omega)

/-- `DeCQueue` removes the oldest bytes and copies them to the caller's buffer. -/
theorem deCQueue_spec (h : q.WellFormed) (hlen : len ≤ q.len) :
    ∃ q' e', q.deCQueue e len = some (q', e') ∧ q'.WellFormed ∧ q'.size = q.size ∧
      q'.contents = q.contents.drop len ∧ (∀ i < len, q.contents[i]? = some (e' i)) ∧
      ∀ i, len ≤ i → e' i = e i := by
  have hr := h.read_lt
  have hq := h.len_le
  have hnew : (q.read + len) % q.size < q.size := Nat.mod_lt _ (by omega)
  have hwrite : q.write = ((q.read + len) % q.size + (q.len - len)) % q.size := by
    rw [h.write_eq, Nat.mod_add_mod]
    congr 1
    omega
  have hread : (q.read + len) % q.size =
      if q.size - q.read > len then q.read + len else len - (q.size - q.read) := by
    rw [Ring.index_eq hr (by omega)]
    split_ifs <;> omega
  unfold deCQueue
  rw [if_neg (by unfold lengthOfCQueue; omega)]
  dsimp only
  split_ifs with hone
  · rw [if_pos hone] at hread
    rw [hread] at hnew hwrite
    refine ⟨_, _, rfl, ⟨hnew, by dsimp only; omega, hwrite⟩, rfl, ?_, fun i hi => ?_,
      fun i hi => ?_⟩
    · rw [contents, contents, Ring.drop_cells hlen, hread]
    · rw [contents, Ring.getElem?_cells (by omega), Nat.mod_eq_of_lt (by omega),
        NorMemory.overlay_of_inRange ⟨by omega, by omega⟩, Nat.sub_zero]
    · exact NorMemory.overlay_of_not_inRange (fun hi' => by have := hi'.2; omega) _ _
  · rw [if_neg hone] at hread
    rw [hread] at hnew hwrite
    refine ⟨_, _, rfl, ⟨hnew, by dsimp only; omega, hwrite⟩, rfl, ?_, fun i hi => ?_,
      fun i hi => ?_⟩
    · rw [contents, contents, Ring.drop_cells hlen, hread]
    · rw [contents, Ring.getElem?_cells (by omega), read_two hr (by omega) (by omega) hi]
    · exact read_two_of_le (by omega) hi

/-- `PeekCQueueToBuf` copies the oldest bytes. -/
theorem peekCQueueToBuf_spec (h : q.WellFormed) (hlen : len ≤ q.len) :
    ∃ e', q.peekCQueueToBuf e len = some e' ∧ ∀ i < len, q.contents[i]? = some (e' i) := by
  have hr := h.read_lt
  have hq := h.len_le
  unfold peekCQueueToBuf
  rw [if_neg (by unfold lengthOfCQueue; omega)]
  split_ifs with hone
  · refine ⟨_, rfl, fun i hi => ?_⟩
    -- the block does not go round, even when the queue does not end behind its start
    have hindex : q.read + i < q.size := by
      rcases hone with hone | hone
      · have hw := h.write_eq
        rw [Ring.index_eq hr hq] at hw
        split_ifs at hw <;> omega
      · omega
    rw [contents, Ring.getElem?_cells (by omega), Nat.mod_eq_of_lt hindex,
      NorMemory.overlay_of_inRange ⟨by omega, by omega⟩, Nat.sub_zero]
  · refine ⟨_, rfl, fun i hi => ?_⟩
    have hwrap : q.size - q.read ≤ len := by omega
    rw [contents, Ring.getElem?_cells (by omega), read_two hr hwrap (by omega) hi]

end CQueue

end EarbudFirmware
