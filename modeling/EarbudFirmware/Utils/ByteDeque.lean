import EarbudFirmware.Lib.Simulation
import EarbudFirmware.Utils.CQueue

/-!
# The byte queue is a bounded deque

The other operations of `cqueue.c`, and its purpose: a list of at most `size` bytes, which grows at
both ends and shrinks at the front. `int` is wide enough for the size of a buffer, so that no index
overflows.

## Main definitions

* `CQueue.enCQueueFront`, `CQueue.peekCQueue`, `CQueue.pullCQueue` — the functions of the same names
* `ByteDeque` — a list of bytes with a bound
* `Represents` — a queue whose bytes are those of a deque

## Main results

* `enCQueueFront_spec` — the loop that walks backwards prepends
* `peekCQueue_spec` — the two pieces are the oldest bytes
* `cQueue_refines_byteDeque` — every sequence of calls has the answers of the deque
-/

namespace EarbudFirmware

open NorMemory (Content overlay InRange)

namespace CQueue

/-! ### The remaining operations -/

/-- The loop of `EnCQueueFront`, which copies from the last byte to the first one. -/
def enCQueueFrontLoop (size : Nat) (e : Content) : (len read : Nat) → Content → Nat × Content
  | 0, read, base => (read, base)
  | len + 1, read, base =>
    enCQueueFrontLoop size e len (if read = 0 then size - 1 else read - 1)
      (Function.update base read (e len))

/-- `EnCQueueFront`. -/
def enCQueueFront (q : CQueue) (e : Content) (len : Nat) : Option CQueue :=
  if q.availableOfCQueue < len then none
  else
    let read := if q.read = 0 then q.size - 1 else q.read - 1
    let (read, base) := enCQueueFrontLoop q.size e len read q.base
    -- one step too many
    some { q with
      len := q.len + len, base, read := if read = q.size - 1 then 0 else read + 1 }

/-- `DeCQueue` without a buffer. -/
def deCQueueNull (q : CQueue) (len : Nat) : Option CQueue :=
  if q.lengthOfCQueue < len then none
  else
    some { q with
      len := q.len - len, read := if 0 < q.size then (q.read + len) % q.size else 0 }

/-- The pointers and lengths that `PeekCQueue` gives; the pointers are indices of the buffer. -/
structure Pieces where
  e1 : Nat
  len1 : Nat
  e2 : Option Nat
  len2 : Nat

/-- `PeekCQueue`. -/
def peekCQueue (q : CQueue) (lenWant : Nat) : Option Pieces :=
  if q.lengthOfCQueue < lenWant then none
  else if q.write > q.read ∨ q.size - q.read ≥ lenWant then some ⟨q.read, lenWant, none, 0⟩
  else
    let len1 := q.size - q.read
    some ⟨q.read, len1, some 0, lenWant - len1⟩

/-- The bytes of the two pieces. -/
def Pieces.bytes (p : Pieces) (q : CQueue) : List UInt8 :=
  (List.range p.len1).map (fun i => q.base (p.e1 + i)) ++
    (List.range p.len2).map fun i => q.base (p.e2.getD 0 + i)

/-- The two pieces are copied into the buffer `e`. -/
def Pieces.copy (p : Pieces) (q : CQueue) (e : Content) : Content :=
  let e := overlay 0 p.len1 (fun i => q.base (p.e1 + i)) e
  overlay p.len1 p.len2 (fun i => q.base (p.e2.getD 0 + i)) e

/-- `PullCQueue`, which ignores the answer of `DeCQueue`. -/
def pullCQueue (q : CQueue) (e : Content) (len : Nat) : Option (CQueue × Content) :=
  (q.peekCQueue len).bind fun p =>
    if len = p.len1 + p.len2 then some ((q.deCQueueNull len).getD q, p.copy q e) else none

/-- `ResetCQueue`. -/
def resetCQueue (q : CQueue) : CQueue := { q with len := 0, read := 0, write := 0 }

variable {q q' : CQueue} {e : Content} {len : Nat}

/-! ### The loop that walks backwards -/

/-- The index before `read`. -/
theorem pred_add_one_mod {size read : Nat} (h : read < size) :
    ((if read = 0 then size - 1 else read - 1) + 1) % size = read := by
  split_ifs with h0
  · have hsize : size - 1 + 1 = size := by omega
    rw [hsize, Nat.mod_self, h0]
  · have hread : read - 1 + 1 = read := by omega
    rw [hread, Nat.mod_eq_of_lt h]

/-- The index behind `read`. -/
theorem ite_add_one_eq_mod {size read : Nat} (h : read < size) :
    (if read = size - 1 then 0 else read + 1) = (read + 1) % size := by
  split_ifs with hlast
  · have hsize : read + 1 = size := by omega
    rw [hsize, Nat.mod_self]
  · rw [Nat.mod_eq_of_lt (by omega)]

/-- The loop fills the `len` cells that end with `read`, and ends before the first one. -/
theorem enCQueueFrontLoop_spec {size start read : Nat} (base : Content) (hread : read < size)
    (hstart : start < size) (hend : (start + len) % size = (read + 1) % size) (hlen : len ≤ size) :
    (enCQueueFrontLoop size e len read base).1 < size ∧
      ((enCQueueFrontLoop size e len read base).1 + 1) % size = start ∧
      Ring.Written base (enCQueueFrontLoop size e len read base).2 size start len e := by
  induction len generalizing read base with
  | zero =>
    rw [Nat.add_zero, Nat.mod_eq_of_lt hstart] at hend
    exact ⟨hread, hend.symm, fun i hi => absurd hi (Nat.not_lt_zero i), fun _ _ => rfl⟩
  | succ len ih =>
    have hmod : start + len ≡ read [MOD size] := Nat.ModEq.add_right_cancel' 1 hend
    have hlast : (start + len) % size = read := by
      rw [hmod, Nat.mod_eq_of_lt hread]
    have hpred : (if read = 0 then size - 1 else read - 1) < size := by
      split_ifs <;> omega
    obtain ⟨hlt, hfirst, hwritten⟩ := ih (Function.update base read (e len)) hpred
      (by rw [hlast, pred_add_one_mod hread]) (by omega)
    refine ⟨hlt, hfirst, fun i hi => ?_, fun p hp => ?_⟩
    · by_cases hi' : i < len
      · exact hwritten.block i hi'
      · -- the byte written first is not overwritten later
        obtain rfl : i = len := by omega
        have hframe := hwritten.frame read fun j hj => by
          rw [← hlast]
          exact Ring.index_ne (by omega) (by omega) (by omega)
        rw [hlast]
        exact hframe.trans (Function.update_self _ _ _)
    · have hne : p ≠ read := by
        rw [← hlast]
        exact hp len (by omega)
      exact (hwritten.frame p fun i hi => hp i (by omega)).trans (Function.update_of_ne hne _ _)

/-- `EnCQueueFront` prepends the bytes when they fit. -/
theorem enCQueueFront_spec (h : q.WellFormed) (hlen : q.len + len ≤ q.size) :
    ∃ q', q.enCQueueFront e len = some q' ∧ q'.WellFormed ∧ q'.size = q.size ∧
      q'.contents = (List.range len).map e ++ q.contents := by
  have hr := h.read_lt
  have hfits : ¬q.availableOfCQueue < len := by
    unfold availableOfCQueue
    omega
  have hpred : (if q.read = 0 then q.size - 1 else q.read - 1) < q.size := by
    split_ifs <;> omega
  have hstart : (q.read + (q.size - len)) % q.size < q.size := Nat.mod_lt _ (by omega)
  have hblock : ((q.read + (q.size - len)) % q.size + len) % q.size = q.read := by
    have hsum : q.read + (q.size - len) + len = q.read + q.size := by omega
    rw [Nat.mod_add_mod, hsum, Nat.add_mod_right, Nat.mod_eq_of_lt hr]
  obtain ⟨hlt, hfirst, hwritten⟩ := enCQueueFrontLoop_spec (e := e) q.base hpred hstart
    (by rw [hblock, pred_add_one_mod hr]) (by omega)
  unfold enCQueueFront
  rw [if_neg hfits]
  dsimp only
  rw [ite_add_one_eq_mod hlt, hfirst]
  refine ⟨_, rfl, ⟨hstart, hlen, ?_⟩, rfl, ?_⟩
  · show q.write = ((q.read + (q.size - len)) % q.size + (q.len + len)) % q.size
    rw [Nat.add_comm q.len, ← Nat.add_assoc, ← Nat.mod_add_mod, hblock]
    exact h.write_eq
  · have hcells := hwritten.cells_prepend (m := q.len) (by omega)
    rw [hblock, Nat.add_comm len] at hcells
    exact hcells

/-! ### Reading and removing -/

/-- `DeCQueue` without a buffer removes the oldest bytes. -/
theorem deCQueueNull_spec (h : q.WellFormed) (hlen : len ≤ q.len) :
    ∃ q', q.deCQueueNull len = some q' ∧ q'.WellFormed ∧ q'.size = q.size ∧
      q'.contents = q.contents.drop len := by
  have hr := h.read_lt
  have hq := h.len_le
  have hpos : 0 < q.size := Nat.zero_lt_of_lt hr
  unfold deCQueueNull
  rw [if_neg (by unfold lengthOfCQueue; omega), if_pos hpos]
  refine ⟨_, rfl, ⟨Nat.mod_lt _ hpos, Nat.le_trans (Nat.sub_le _ _) hq, ?_⟩, rfl, ?_⟩
  · show q.write = ((q.read + len) % q.size + (q.len - len)) % q.size
    have hsum : q.read + len + (q.len - len) = q.read + q.len := by omega
    rw [Nat.mod_add_mod, hsum, h.write_eq]
  · rw [contents, contents, Ring.drop_cells hlen]

/-- The two pieces are the oldest bytes. -/
theorem peekCQueue_spec (h : q.WellFormed) (hlen : len ≤ q.len) :
    ∃ p, q.peekCQueue len = some p ∧ len = p.len1 + p.len2 ∧
      p.bytes q = q.contents.take len := by
  have hr := h.read_lt
  have hq := h.len_le
  have htake : q.contents.take len = Ring.cells q.base q.size q.read len := Ring.take_cells hlen
  unfold peekCQueue
  rw [if_neg (by unfold lengthOfCQueue; omega)]
  split_ifs with hone
  · refine ⟨_, rfl, rfl, ?_⟩
    -- the bytes do not go round, also when the queue is full
    have hindex : q.read + len ≤ q.size := by
      rcases hone with hone | hone
      · have hw := h.write_eq
        rw [Ring.index_eq hr hq] at hw
        split_ifs at hw <;> omega
      · omega
    rw [htake, Pieces.bytes, List.range_zero, List.map_nil, List.append_nil]
    refine List.map_congr_left fun i hi => ?_
    have hi : i < len := List.mem_range.1 hi
    rw [Nat.mod_eq_of_lt (by omega)]
  · have hsplit : len = q.size - q.read + (len - (q.size - q.read)) := by omega
    have hround : (q.read + (q.size - q.read)) % q.size = 0 := by
      rw [Nat.add_sub_cancel' (Nat.le_of_lt hr), Nat.mod_self]
    refine ⟨_, rfl, hsplit, ?_⟩
    rw [htake, hsplit, Ring.cells_add, hround, ← hsplit]
    refine congrArg₂ (· ++ ·) (List.map_congr_left fun i hi => ?_)
      (List.map_congr_left fun i hi => ?_)
    · have hi : i < q.size - q.read := List.mem_range.1 hi
      rw [Nat.mod_eq_of_lt (by omega)]
    · have hi : i < len - (q.size - q.read) := List.mem_range.1 hi
      rw [Nat.zero_add, Option.getD_some, Nat.zero_add, Nat.mod_eq_of_lt (by omega)]

/-- The bytes `l` are put at the start of the buffer `e`. -/
def fill (l : List UInt8) (e : Content) : Content := overlay 0 l.length (fun i => l.getD i 0) e

theorem eq_fill {l : List UInt8} {e' : Content} (hin : ∀ i < l.length, l[i]? = some (e' i))
    (hout : ∀ i, l.length ≤ i → e' i = e i) : e' = fill l e := by
  funext i
  by_cases hi : i < l.length
  · rw [fill, NorMemory.overlay_of_inRange ⟨Nat.zero_le i, by omega⟩, Nat.sub_zero,
      List.getD_eq_getElem?_getD, hin i hi, Option.getD_some]
  · rw [fill, NorMemory.overlay_of_not_inRange fun hr => hi (by have := hr.2; omega)]
    exact hout i (Nat.le_of_not_lt hi)

/-- Copying the two pieces puts their bytes into the buffer. -/
theorem Pieces.copy_eq (p : Pieces) : p.copy q e = fill (p.bytes q) e := by
  have hlen : (p.bytes q).length = p.len1 + p.len2 := by simp [Pieces.bytes]
  refine eq_fill (fun i hi => ?_) fun i hi => ?_
  · rw [hlen] at hi
    unfold Pieces.copy Pieces.bytes
    by_cases hi1 : i < p.len1
    · rw [NorMemory.overlay_of_not_inRange fun hr => by have := hr.1; omega,
        NorMemory.overlay_of_inRange ⟨Nat.zero_le i, by omega⟩,
        List.getElem?_append_left (by simpa using hi1), List.getElem?_map,
        List.getElem?_range hi1]
      rfl
    · have hi2 : i - p.len1 < p.len2 := by omega
      rw [NorMemory.overlay_of_inRange ⟨by omega, by omega⟩,
        List.getElem?_append_right (by simpa using hi1), List.getElem?_map, List.length_map,
        List.length_range, List.getElem?_range hi2]
      rfl
  · rw [hlen] at hi
    unfold Pieces.copy
    rw [NorMemory.overlay_of_not_inRange fun hr => by have := hr.2; omega,
      NorMemory.overlay_of_not_inRange fun hr => by have := hr.2; omega]

/-- `PeekCQueueToBuf` copies the pieces that `PeekCQueue` gives. -/
theorem peekCQueueToBuf_eq :
    q.peekCQueueToBuf e len = (q.peekCQueue len).map fun p => p.copy q e := by
  unfold peekCQueueToBuf peekCQueue
  split_ifs with hlen hone
  · rfl
  · refine congrArg some ?_
    funext i
    have hnot : ¬InRange len 0 i := fun hr => by
      have hlo := hr.1
      have hhi := hr.2
      omega
    simp only [Pieces.copy]
    rw [NorMemory.overlay_of_not_inRange hnot]
  · simp only [Option.map_some, Pieces.copy, Option.getD_some, Nat.zero_add]

end CQueue

/-! ### The deque -/

/-- A list of at most `size` bytes. -/
structure ByteDeque (size : Nat) where
  bytes : List UInt8
  length_le : bytes.length ≤ size

/-- The calls, with the caller's buffers and any lengths. -/
inductive CQueueCall where
  | enCQueue (e : Content) (len : Nat)
  | enCQueueFront (e : Content) (len : Nat)
  | deCQueue (e : Option Content) (len : Nat)
  | peekCQueue (lenWant : Nat)
  | peekCQueueToBuf (e : Content) (len : Nat)
  | pullCQueue (e : Content) (len : Nat)
  | resetCQueue

/-- `CQ_ERR`; `CQ_OK`, and what is in the caller's buffer or in the pieces then. -/
inductive CQueueAnswer where
  | err
  | ok
  | buffer (e : Content)
  | pieces (bytes : List UInt8)

namespace ByteDeque

open CQueue (fill)

variable {size : Nat}

/-- The deque without bytes. -/
def empty (size : Nat) : ByteDeque size := ⟨[], Nat.zero_le size⟩

/-- The new bytes, when they fit. -/
def put (d : ByteDeque size) (l : List UInt8) : ByteDeque size × CQueueAnswer :=
  if h : l.length ≤ size then (⟨l, h⟩, .ok) else (d, .err)

/-- The deque without its first `len` bytes. -/
def drop (d : ByteDeque size) (len : Nat) : ByteDeque size :=
  ⟨d.bytes.drop len, by
    rw [List.length_drop]
    exact Nat.le_trans (Nat.sub_le _ _) d.length_le⟩

/-- The answer `r` when there are `len` bytes. -/
def guard (d : ByteDeque size) (len : Nat) (r : ByteDeque size × CQueueAnswer) :
    ByteDeque size × CQueueAnswer :=
  if len ≤ d.bytes.length then r else (d, .err)

/-- What a call is for. -/
def call (d : ByteDeque size) : CQueueCall → ByteDeque size × CQueueAnswer
  | .enCQueue e len => d.put (d.bytes ++ (List.range len).map e)
  | .enCQueueFront e len => d.put ((List.range len).map e ++ d.bytes)
  | .deCQueue (some e) len => d.guard len (d.drop len, .buffer (fill (d.bytes.take len) e))
  | .deCQueue none len => d.guard len (d.drop len, .ok)
  | .peekCQueue len => d.guard len (d, .pieces (d.bytes.take len))
  | .peekCQueueToBuf e len => d.guard len (d, .buffer (fill (d.bytes.take len) e))
  | .pullCQueue e len => d.guard len (d.drop len, .buffer (fill (d.bytes.take len) e))
  | .resetCQueue => (empty size, .ok)

end ByteDeque

namespace CQueue

variable {size len : Nat} {q : CQueue} {d : ByteDeque size} {e : Content}

/-- A call of the functions of the queue. -/
def call (q : CQueue) : CQueueCall → CQueue × CQueueAnswer
  | .enCQueue e len => ((q.enCQueue e len).map (·, .ok)).getD (q, .err)
  | .enCQueueFront e len => ((q.enCQueueFront e len).map (·, .ok)).getD (q, .err)
  | .deCQueue (some e) len => ((q.deCQueue e len).map fun r => (r.1, .buffer r.2)).getD (q, .err)
  | .deCQueue none len => ((q.deCQueueNull len).map (·, .ok)).getD (q, .err)
  | .peekCQueue len => ((q.peekCQueue len).map fun p => (q, .pieces (p.bytes q))).getD (q, .err)
  | .peekCQueueToBuf e len => ((q.peekCQueueToBuf e len).map (q, .buffer ·)).getD (q, .err)
  | .pullCQueue e len => ((q.pullCQueue e len).map fun r => (r.1, .buffer r.2)).getD (q, .err)
  | .resetCQueue => (q.resetCQueue, .ok)

/-- The bytes in the queue are those of the deque. -/
structure Represents (q : CQueue) (d : ByteDeque size) : Prop where
  wellFormed : q.WellFormed
  size_eq : q.size = size
  contents_eq : q.contents = d.bytes

theorem Represents.len_eq (h : Represents q d) : q.len = d.bytes.length := by
  rw [← h.contents_eq, length_contents]

/-- A call that adds bytes. -/
theorem Represents.put (h : Represents q d) {f : Option CQueue} {l : List UInt8}
    (hl : l.length = q.len + len) (hnone : q.availableOfCQueue < len → f = none)
    (hsome : q.len + len ≤ q.size →
      ∃ q', f = some q' ∧ q'.WellFormed ∧ q'.size = q.size ∧ q'.contents = l) :
    ((f.map (·, CQueueAnswer.ok)).getD (q, .err)).2 = (d.put l).2 ∧
      Represents ((f.map (·, CQueueAnswer.ok)).getD (q, .err)).1 (d.put l).1 := by
  have hle := h.wellFormed.len_le
  unfold ByteDeque.put
  by_cases hfits : l.length ≤ size
  · rw [hl, ← h.size_eq] at hfits
    obtain ⟨q', rfl, hwf, hsize, hcontents⟩ := hsome hfits
    have hl' : l.length ≤ size := by rwa [hl, ← h.size_eq]
    rw [dif_pos hl']
    exact ⟨rfl, hwf, hsize.trans h.size_eq, hcontents⟩
  · rw [dif_neg hfits, hnone]
    · exact ⟨rfl, h⟩
    · rw [hl, ← h.size_eq] at hfits
      unfold availableOfCQueue
      omega

/-- A call that needs `len` bytes. -/
theorem Represents.guard (h : Represents q d) {f : Option (CQueue × CQueueAnswer)}
    {r : ByteDeque size × CQueueAnswer} (hnone : q.len < len → f = none)
    (hsome : len ≤ q.len → ∃ q' a, f = some (q', a) ∧ a = r.2 ∧ Represents q' r.1) :
    (f.getD (q, .err)).2 = (d.guard len r).2 ∧
      Represents (f.getD (q, .err)).1 (d.guard len r).1 := by
  unfold ByteDeque.guard
  rw [← h.len_eq]
  by_cases hlen : len ≤ q.len
  · obtain ⟨q', a, rfl, ha, hrep⟩ := hsome hlen
    rw [if_pos hlen]
    exact ⟨ha, hrep⟩
  · rw [if_neg hlen, hnone (Nat.lt_of_not_le hlen)]
    exact ⟨rfl, h⟩

/-- The oldest bytes are removed from both. -/
theorem Represents.drop (h : Represents q d) {q' : CQueue} (hwf : q'.WellFormed)
    (hsize : q'.size = q.size) (hdrop : q'.contents = q.contents.drop len) :
    Represents q' (d.drop len) :=
  ⟨hwf, hsize.trans h.size_eq, by rw [hdrop, h.contents_eq]; rfl⟩

theorem peekCQueue_of_gt (hlen : q.len < len) : q.peekCQueue len = none := if_pos hlen

/-- Every call has the answer that the deque gives. -/
theorem call_simulates : Simulation.Simulates call (@ByteDeque.call size) Represents := by
  intro q d c h
  have hwf := h.wellFormed
  have hcontents := h.contents_eq
  cases c with
  | enCQueue e len =>
    refine h.put (show _ = q.len + len by simp [h.len_eq]) (fun hlen => if_pos hlen) fun hlen => ?_
    rw [← hcontents]
    exact enCQueue_spec hwf hlen
  | enCQueueFront e len =>
    refine h.put (show _ = q.len + len by simp [h.len_eq, Nat.add_comm])
      (fun hlen => if_pos hlen) fun hlen => ?_
    rw [← hcontents]
    exact enCQueueFront_spec hwf hlen
  | deCQueue e len =>
    cases e with
    | none =>
      refine h.guard (fun hlen => ?_) fun hlen => ?_
      · have hnone : q.deCQueueNull len = none := if_pos hlen
        rw [hnone, Option.map_none]
      · obtain ⟨q', hq', hwf', hsize, hdrop⟩ := deCQueueNull_spec hwf hlen
        exact ⟨q', .ok, by rw [hq', Option.map_some], rfl, h.drop hwf' hsize hdrop⟩
    | some e =>
      refine h.guard (fun hlen => ?_) fun hlen => ?_
      · have hnone : q.deCQueue e len = none := if_pos hlen
        rw [hnone, Option.map_none]
      · obtain ⟨q', e', hq', hwf', hsize, hdrop, hin, hout⟩ := deCQueue_spec (e := e) hwf hlen
        have htake : (q.contents.take len).length = len := by simpa using hlen
        have he' : e' = fill (q.contents.take len) e := by
          refine eq_fill (fun i hi => ?_) fun i hi => hout i (by rw [← htake]; exact hi)
          rw [htake] at hi
          rw [List.getElem?_take_of_lt hi, hin i hi]
        exact ⟨q', .buffer e', by rw [hq', Option.map_some], by rw [he', hcontents],
          h.drop hwf' hsize hdrop⟩
  | peekCQueue len =>
    refine h.guard (fun hlen => ?_) fun hlen => ?_
    · rw [peekCQueue_of_gt hlen, Option.map_none]
    · obtain ⟨p, hp, -, hbytes⟩ := peekCQueue_spec hwf hlen
      exact ⟨q, _, by rw [hp, Option.map_some], by rw [hbytes, hcontents], h⟩
  | peekCQueueToBuf e len =>
    refine h.guard (fun hlen => ?_) fun hlen => ?_
    · rw [peekCQueueToBuf_eq, peekCQueue_of_gt hlen, Option.map_none, Option.map_none]
    · obtain ⟨p, hp, -, hbytes⟩ := peekCQueue_spec hwf hlen
      exact ⟨q, _, by rw [peekCQueueToBuf_eq, hp, Option.map_some, Option.map_some],
        by rw [Pieces.copy_eq, hbytes, hcontents], h⟩
  | pullCQueue e len =>
    refine h.guard (fun hlen => ?_) fun hlen => ?_
    · rw [pullCQueue, peekCQueue_of_gt hlen, Option.bind_none, Option.map_none]
    · obtain ⟨p, hp, hsum, hbytes⟩ := peekCQueue_spec hwf hlen
      obtain ⟨q', hq', hwf', hsize, hdrop⟩ := deCQueueNull_spec hwf hlen
      refine ⟨q', .buffer (p.copy q e), ?_, by rw [Pieces.copy_eq, hbytes, hcontents],
        h.drop hwf' hsize hdrop⟩
      rw [pullCQueue, hp, Option.bind_some, if_pos hsum, hq', Option.map_some, Option.getD_some]
  | resetCQueue =>
    exact ⟨rfl, ⟨Nat.zero_lt_of_lt hwf.read_lt, Nat.zero_le _, (Nat.zero_mod _).symm⟩,
      h.size_eq, rfl⟩

/-- A queue is a deque of the same size: every sequence of calls has the same answers, and the
indices fit together behind it. -/
theorem cQueue_refines_byteDeque {size : Nat} (hsize : 0 < size) (base : Content)
    (calls : List CQueueCall) :
    let q := Simulation.run call (initCQueue size base) calls
    let d := Simulation.run ByteDeque.call (ByteDeque.empty size) calls
    q.2 = d.2 ∧ q.1.contents = d.1.bytes ∧ q.1.size = size ∧ q.1.read < size ∧
      q.1.write < size ∧ q.1.write = (q.1.read + q.1.len) % size := by
  have hinit : Represents (initCQueue size base) (ByteDeque.empty size) :=
    ⟨wellFormed_initCQueue hsize, rfl, rfl⟩
  obtain ⟨hanswers, hwf, hsize', hcontents⟩ := call_simulates.run hinit calls
  have hread := hwf.read_lt
  have hwrite := hwf.write_lt
  have heq := hwf.write_eq
  rw [hsize'] at hread hwrite heq
  exact ⟨hanswers, hcontents, hsize', hread, hwrite, heq⟩

/-- A queue of three bytes goes round at both ends. -/
theorem cQueue_refines_byteDeque_three :
    let calls := [.enCQueue (fun i => if i = 0 then 1 else 2) 2, .deCQueue none 1,
      .enCQueueFront (fun i => if i = 0 then 3 else 4) 2, .enCQueue (fun _ => 5) 1, .peekCQueue 3]
    let q := Simulation.run call (initCQueue 3 fun _ => 0xFF) calls
    q.2 = (Simulation.run ByteDeque.call (ByteDeque.empty 3) calls).2 ∧
      q.1.contents = [3, 4, 2] ∧ q.1.read = 2 :=
  ⟨(cQueue_refines_byteDeque (by decide) _ _).1, by decide, by decide⟩

end CQueue

end EarbudFirmware
