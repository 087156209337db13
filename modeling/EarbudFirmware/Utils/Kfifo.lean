import EarbudFirmware.Utils.ByteDeque

/-!
# The kernel fifo

`kfifo.c`: a circular buffer of bytes whose size is a power of two. The counters `in` and `out` are
never reduced to the size; they go round at `2 ^ 32`, and the place in the buffer is their
remainder.

## Main definitions

* `Kfifo` — `struct kfifo`
* `Kfifo.put`, `Kfifo.get`, `Kfifo.peek`, `Kfifo.peekToBuf` — the functions of the same names
* `ByteDeque.kfifoCall` — what the fifo is for: a list of at most `size` bytes

## Main results

* `put_spec`, `get_spec`, `peek_spec` — the functions on the bytes in the fifo
* `kfifo_refines_byteDeque` — every sequence of calls has the answers of the list
-/

namespace EarbudFirmware

open NorMemory (Content overlay InRange)

/-- `struct kfifo`. -/
structure Kfifo where
  buffer : Content
  size : UInt32
  inIdx : UInt32
  outIdx : UInt32

namespace Kfifo

/-- `is_power_of_2`. -/
def isPowerOf2 (n : UInt32) : Bool := n ≠ 0 ∧ n &&& (n - 1) = 0

/-- `kfifo_init`; `none` is a failing assertion. -/
def init (buffer : Content) (len : UInt32) : Option Kfifo :=
  if isPowerOf2 len then some ⟨buffer, len, 0, 0⟩ else none

/-- `kfifo_len`. -/
def len (f : Kfifo) : UInt32 := f.inIdx - f.outIdx

/-- `kfifo_get_free_space`. -/
def getFreeSpace (f : Kfifo) : UInt32 := f.size - f.inIdx + f.outIdx

/-- `kfifo_put`. -/
def put (f : Kfifo) (e : Content) (len : UInt32) : Kfifo × UInt32 :=
  let len := min len (f.size - f.inIdx + f.outIdx)
  let l := min len (f.size - (f.inIdx &&& (f.size - 1)))
  let buffer := overlay (f.inIdx &&& (f.size - 1)).toNat l.toNat e f.buffer
  let buffer := overlay 0 (len - l).toNat (fun i => e (l.toNat + i)) buffer
  ({ f with buffer, inIdx := f.inIdx + len }, len)

/-- `kfifo_get` into the buffer `e`. -/
def get (f : Kfifo) (e : Content) (len : UInt32) : Kfifo × Content × UInt32 :=
  let len := min len (f.inIdx - f.outIdx)
  let l := min len (f.size - (f.outIdx &&& (f.size - 1)))
  let e := overlay 0 l.toNat (fun i => f.buffer ((f.outIdx &&& (f.size - 1)).toNat + i)) e
  let e := overlay l.toNat (len - l).toNat f.buffer e
  ({ f with outIdx := f.outIdx + len }, e, len)

/-- What `kfifo_peek` gives: its answer, and two pointers with their lengths. The pointers are
indices of the buffer, and `none` is a null pointer. -/
structure Peek where
  ret : UInt32
  buff1 : Option Nat
  len1 : UInt32
  buff2 : Option Nat
  len2 : UInt32

/-- `kfifo_peek`. -/
def peek (f : Kfifo) (lenWant : UInt32) : Peek :=
  let len := min lenWant (f.inIdx - f.outIdx)
  if len < lenWant then ⟨0, none, 0, none, 0⟩
  else
    let l := min len (f.size - (f.outIdx &&& (f.size - 1)))
    if l < len then ⟨lenWant, some (f.outIdx &&& (f.size - 1)).toNat, l, some 0, len - l⟩
    else ⟨lenWant, some (f.outIdx &&& (f.size - 1)).toNat, l, none, 0⟩

/-- The bytes of a piece. -/
def piece (f : Kfifo) (buff : Option Nat) (len : UInt32) : List UInt8 :=
  (List.range len.toNat).map fun i => f.buffer (buff.getD 0 + i)

/-- `kfifo_peek_to_buf` into the buffer `e`. -/
def peekToBuf (f : Kfifo) (e : Content) (len : UInt32) : Content × UInt32 :=
  let p := f.peek len
  if len = p.len1 + p.len2 then
    let e := overlay 0 p.len1.toNat (fun i => f.buffer (p.buff1.getD 0 + i)) e
    (overlay p.len1.toNat p.len2.toNat (fun i => f.buffer (p.buff2.getD 0 + i)) e, len)
  else (e, 0)

/-- The bytes in the fifo, oldest first. -/
def contents (f : Kfifo) : List UInt8 :=
  Ring.cells f.buffer f.size.toNat (f.outIdx.toNat % f.size.toNat) f.len.toNat

/-- The size is a power of two, and the counters are at most a buffer apart. -/
structure WellFormed (f : Kfifo) : Prop where
  size_eq : ∃ k < 32, f.size.toNat = 2 ^ k
  len_le : f.len.toNat ≤ f.size.toNat

variable {f : Kfifo} {e : Content} {n : UInt32}

/-! ### Counters -/

theorem toNat_min (a b : UInt32) : (min a b).toNat = min a.toNat b.toNat := by
  change (if a ≤ b then a else b).toNat = _
  split_ifs with h
  · exact (Nat.min_eq_left (UInt32.le_iff_toNat_le.1 h)).symm
  · exact (Nat.min_eq_right (Nat.le_of_lt (UInt32.lt_iff_toNat_lt.1 (UInt32.not_le.1 h)))).symm

theorem toNat_sub_min (a b : UInt32) : (a - min a b).toNat = a.toNat - min a.toNat b.toNat := by
  rw [UInt32.toNat_sub_of_le _ _ (UInt32.le_iff_toNat_le.2 ?_), toNat_min]
  rw [toNat_min]
  exact Nat.min_le_left _ _

theorem WellFormed.size_pos (h : f.WellFormed) : 0 < f.size.toNat := by
  obtain ⟨k, -, hk⟩ := h.size_eq
  rw [hk]
  exact Nat.two_pow_pos k

/-- Masking a counter reduces it to a place in the buffer. -/
theorem WellFormed.toNat_mask (h : f.WellFormed) (x : UInt32) :
    (x &&& (f.size - 1)).toNat = x.toNat % f.size.toNat := by
  obtain ⟨k, -, hk⟩ := h.size_eq
  have hone : (1 : UInt32) ≤ f.size := UInt32.le_iff_toNat_le.2 h.size_pos
  rw [UInt32.toNat_and, UInt32.toNat_sub_of_le _ _ hone, hk]
  exact Nat.and_two_pow_sub_one_eq_mod _ _

/-- The bytes from a place to the end of the buffer. -/
theorem WellFormed.toNat_size_sub (h : f.WellFormed) (x : UInt32) :
    (f.size - (x &&& (f.size - 1))).toNat = f.size.toNat - x.toNat % f.size.toNat := by
  rw [UInt32.toNat_sub_of_le _ _ (UInt32.le_iff_toNat_le.2 ?_), h.toNat_mask]
  rw [h.toNat_mask]
  exact Nat.le_of_lt (Nat.mod_lt _ h.size_pos)

/-- A counter may go round before it is reduced. -/
theorem WellFormed.toNat_add_mod (h : f.WellFormed) (x y : UInt32) :
    (x + y).toNat % f.size.toNat = (x.toNat % f.size.toNat + y.toNat) % f.size.toNat := by
  obtain ⟨k, hk32, hk⟩ := h.size_eq
  have hdvd : f.size.toNat ∣ 2 ^ 32 := hk ▸ pow_dvd_pow 2 (Nat.le_of_lt hk32)
  rw [UInt32.toNat_add, Nat.mod_mod_of_dvd _ hdvd, Nat.mod_add_mod]

theorem getFreeSpace_eq : f.getFreeSpace = f.size - f.len := sub_add _ _ _

theorem WellFormed.toNat_getFreeSpace (h : f.WellFormed) :
    f.getFreeSpace.toNat = f.size.toNat - f.len.toNat := by
  rw [getFreeSpace_eq, UInt32.toNat_sub_of_le _ _ (UInt32.le_iff_toNat_le.2 h.len_le)]

/-- `in` is reduced to the place behind the bytes. -/
theorem WellFormed.toNat_inIdx_mod (h : f.WellFormed) : f.inIdx.toNat % f.size.toNat =
    (f.outIdx.toNat % f.size.toNat + f.len.toNat) % f.size.toNat := by
  rw [← h.toNat_add_mod, len, add_sub_cancel]

@[simp] theorem length_contents : f.contents.length = f.len.toNat := Ring.length_cells

/-! ### Copying in two pieces -/

section Pieces

variable {base : Content} {start size m : Nat}

/-- The second piece of a block is empty when the block does not reach the end. -/
theorem written_pieces (hs : start < size) (hm : m ≤ size) :
    Ring.Written base
      (overlay 0 (m - min m (size - start)) (fun i => e (min m (size - start) + i))
        (overlay start (min m (size - start)) e base)) size start m e := by
  rcases Nat.lt_or_ge m (size - start) with hone | htwo
  · rw [Nat.min_eq_left (Nat.le_of_lt hone), Nat.sub_self, NorMemory.overlay_none]
    exact CQueue.written_one (by omega)
  · rw [Nat.min_eq_right htwo]
    exact CQueue.written_two hs htwo hm

theorem read_pieces (hs : start < size) (hm : m ≤ size) :
    overlay (min m (size - start)) (m - min m (size - start)) base
        (overlay 0 (min m (size - start)) (fun i => base (start + i)) e) =
      CQueue.fill (Ring.cells base size start m) e := by
  refine CQueue.eq_fill (fun i hi => ?_) fun i hi => ?_
  · rw [Ring.length_cells] at hi
    rw [Ring.getElem?_cells hi]
    rcases Nat.lt_or_ge m (size - start) with hone | htwo
    · rw [Nat.min_eq_left (Nat.le_of_lt hone), Nat.sub_self, NorMemory.overlay_none,
        NorMemory.overlay_of_inRange ⟨Nat.zero_le i, by omega⟩, Nat.mod_eq_of_lt (by omega),
        Nat.sub_zero]
    · rw [Nat.min_eq_right htwo, CQueue.read_two hs htwo hm hi]
  · rw [Ring.length_cells] at hi
    rw [NorMemory.overlay_of_not_inRange (fun hr => by have := hr.2; omega),
      NorMemory.overlay_of_not_inRange (fun hr => by have := hr.2; omega)]

/-- The two pieces of a block. -/
theorem cells_pieces (hs : start < size) (hm : m ≤ size) :
    (List.range (min m (size - start))).map (fun i => base (start + i)) ++
        (List.range (m - min m (size - start))).map base =
      Ring.cells base size start m := by
  have hsplit : m = min m (size - start) + (m - min m (size - start)) := by omega
  rw [hsplit, Ring.cells_add, ← hsplit]
  refine congrArg₂ (· ++ ·) (List.map_congr_left fun i hi => ?_)
    (List.map_congr_left fun i hi => ?_)
  · have hi := List.mem_range.1 hi
    rw [Nat.mod_eq_of_lt (by omega)]
  · have hi := List.mem_range.1 hi
    have hround : start + min m (size - start) = size := by omega
    rw [hround, Nat.mod_self, Nat.zero_add, Nat.mod_eq_of_lt (by omega)]

end Pieces

/-! ### The functions on the bytes -/

/-- `kfifo_put` appends as many bytes as there is room for. -/
theorem put_spec (h : f.WellFormed) (e : Content) (n : UInt32) :
    (f.put e n).1.WellFormed ∧ (f.put e n).1.size = f.size ∧
      (f.put e n).2.toNat = min n.toNat (f.size.toNat - f.len.toNat) ∧
      (f.put e n).1.contents = f.contents ++ (List.range (f.put e n).2.toNat).map e := by
  obtain ⟨m, hm⟩ : ∃ m, m = min n f.getFreeSpace := ⟨_, rfl⟩
  have hm' : min n (f.size - f.inIdx + f.outIdx) = m := hm.symm
  have hmNat : m.toNat = min n.toNat (f.size.toNat - f.len.toNat) := by
    rw [hm, toNat_min, h.toNat_getFreeSpace]
  have hle := h.len_le
  have hlen : (f.put e n).1.len = f.len + m := by
    change f.inIdx + min n f.getFreeSpace - f.outIdx = f.len + m
    rw [← hm, len, add_sub_right_comm]
  have hlenNat : (f.put e n).1.len.toNat = f.len.toNat + m.toNat := by
    have hlt := f.size.toNat_lt
    rw [hlen, UInt32.toNat_add, Nat.mod_eq_of_lt (by omega)]
  have hplace : f.inIdx.toNat % f.size.toNat < f.size.toNat := Nat.mod_lt _ h.size_pos
  have hbuffer : (f.put e n).1.buffer =
      overlay 0 (m.toNat - min m.toNat (f.size.toNat - f.inIdx.toNat % f.size.toNat))
        (fun i => e (min m.toNat (f.size.toNat - f.inIdx.toNat % f.size.toNat) + i))
        (overlay (f.inIdx.toNat % f.size.toNat)
          (min m.toNat (f.size.toNat - f.inIdx.toNat % f.size.toNat)) e f.buffer) := by
    simp only [put, hm', toNat_sub_min, toNat_min, h.toNat_size_sub, h.toNat_mask]
  have hret : (f.put e n).2 = m := hm'
  refine ⟨⟨h.size_eq, ?_⟩, rfl, hret ▸ hmNat, ?_⟩
  · rw [hlenNat]
    change f.len.toNat + m.toNat ≤ f.size.toNat
    omega
  · change Ring.cells _ f.size.toNat (f.outIdx.toNat % f.size.toNat) (f.put e n).1.len.toNat = _
    rw [hlenNat, hbuffer]
    have hwritten : Ring.Written f.buffer _ f.size.toNat _ m.toNat e :=
      written_pieces hplace (show m.toNat ≤ f.size.toNat by omega)
    rw [h.toNat_inIdx_mod] at hwritten ⊢
    rw [hwritten.cells_append (by omega), hret]
    rfl

/-- `kfifo_get` takes the oldest bytes out, as many as there are. -/
theorem get_spec (h : f.WellFormed) (e : Content) (n : UInt32) :
    (f.get e n).1.WellFormed ∧ (f.get e n).1.size = f.size ∧
      (f.get e n).2.2.toNat = min n.toNat f.len.toNat ∧
      (f.get e n).2.1 = CQueue.fill (f.contents.take n.toNat) e ∧
      (f.get e n).1.contents = f.contents.drop n.toNat := by
  obtain ⟨m, hm⟩ : ∃ m, m = min n f.len := ⟨_, rfl⟩
  have hm' : min n (f.inIdx - f.outIdx) = m := hm.symm
  have hmNat : m.toNat = min n.toNat f.len.toNat := by rw [hm, toNat_min]
  have hle := h.len_le
  have hlenNat : (f.get e n).1.len.toNat = f.len.toNat - m.toNat := by
    have hlen : (f.get e n).1.len = f.len - m := by
      change f.inIdx - (f.outIdx + min n (f.inIdx - f.outIdx)) = f.len - m
      rw [hm', len, sub_add_eq_sub_sub]
    rw [hlen, UInt32.toNat_sub_of_le _ _ (UInt32.le_iff_toNat_le.2 (by omega))]
  have hplace : f.outIdx.toNat % f.size.toNat < f.size.toNat := Nat.mod_lt _ h.size_pos
  have htake : f.contents.take n.toNat =
      Ring.cells f.buffer f.size.toNat (f.outIdx.toNat % f.size.toNat) m.toNat := by
    rw [hmNat, ← Ring.take_cells (Nat.min_le_right _ _), List.take_eq_take_min, length_contents]
    rfl
  have hret : (f.get e n).2.2 = m := hm'
  refine ⟨⟨h.size_eq, ?_⟩, rfl, hret ▸ hmNat, ?_, ?_⟩
  · rw [hlenNat]
    exact Nat.le_trans (Nat.sub_le _ _) hle
  · rw [htake, ← read_pieces hplace (show m.toNat ≤ f.size.toNat by omega)]
    simp only [get, hm', toNat_sub_min, toNat_min, h.toNat_size_sub, h.toNat_mask]
  · change Ring.cells f.buffer f.size.toNat ((f.outIdx + min n (f.inIdx - f.outIdx)).toNat %
      f.size.toNat) (f.get e n).1.len.toNat = _
    have hdrop : f.contents.drop n.toNat = f.contents.drop m.toNat := by
      rcases Nat.le_total n.toNat f.len.toNat with hn | hn
      · rw [hmNat, Nat.min_eq_left hn]
      · rw [hmNat, Nat.min_eq_right hn, List.drop_eq_nil_of_le (by rwa [length_contents]),
          List.drop_eq_nil_of_le (by rw [length_contents])]
    rw [hdrop, hlenNat, hm', h.toNat_add_mod, contents, Ring.drop_cells (by omega)]

/-- `kfifo_peek` gives nothing when there are too few bytes. -/
theorem peek_of_lt (hn : f.len.toNat < n.toNat) : f.peek n = ⟨0, none, 0, none, 0⟩ := by
  have hmin : min n (f.inIdx - f.outIdx) < n := by
    rw [UInt32.lt_iff_toNat_lt, toNat_min]
    exact Nat.lt_of_le_of_lt (Nat.min_le_right _ _) hn
  simp only [peek, hmin, if_true]

/-- `kfifo_peek` gives the oldest bytes in two pieces, when there are enough. -/
theorem peek_spec (h : f.WellFormed) (hn : n.toNat ≤ f.len.toNat) :
    (f.peek n).ret = n ∧ n = (f.peek n).len1 + (f.peek n).len2 ∧
      (f.peek n).buff1.getD 0 = f.outIdx.toNat % f.size.toNat ∧ (f.peek n).buff2.getD 0 = 0 ∧
      (f.peek n).len1.toNat = min n.toNat (f.size.toNat - f.outIdx.toNat % f.size.toNat) ∧
      (f.peek n).len2.toNat = n.toNat -
        min n.toNat (f.size.toNat - f.outIdx.toNat % f.size.toNat) := by
  have hmin : min n (f.inIdx - f.outIdx) = n := by
    rw [← UInt32.toNat_inj, toNat_min]
    exact Nat.min_eq_left hn
  obtain ⟨l, hl⟩ : ∃ l, l = min n (f.size - (f.outIdx &&& (f.size - 1))) := ⟨_, rfl⟩
  have hlNat : l.toNat = min n.toNat (f.size.toNat - f.outIdx.toNat % f.size.toNat) := by
    rw [hl, toNat_min, h.toNat_size_sub]
  have hle : l ≤ n := by
    rw [UInt32.le_iff_toNat_le, hlNat]
    exact Nat.min_le_left _ _
  unfold peek
  simp only [hmin, ← hl, UInt32.lt_irrefl, if_false, h.toNat_mask]
  split_ifs with hlt
  · refine ⟨rfl, (add_sub_cancel _ _).symm, rfl, rfl, hlNat, ?_⟩
    rw [UInt32.toNat_sub_of_le _ _ hle, hlNat]
  · obtain rfl : l = n := UInt32.le_antisymm hle (UInt32.not_lt.1 hlt)
    refine ⟨rfl, (add_zero _).symm, rfl, rfl, hlNat, ?_⟩
    rw [← hlNat, Nat.sub_self]
    rfl

/-- The pieces of `kfifo_peek` are the oldest bytes. -/
theorem piece_peek (h : f.WellFormed) (hn : n.toNat ≤ f.len.toNat) :
    f.piece (f.peek n).buff1 (f.peek n).len1 ++ f.piece (f.peek n).buff2 (f.peek n).len2 =
      f.contents.take n.toNat := by
  obtain ⟨-, -, hbuff1, hbuff2, hlen1, hlen2⟩ := peek_spec h hn
  have hplace : f.outIdx.toNat % f.size.toNat < f.size.toNat := Nat.mod_lt _ h.size_pos
  unfold piece
  simp only [hbuff1, hbuff2, hlen1, hlen2, Nat.zero_add]
  rw [cells_pieces hplace (Nat.le_trans hn h.len_le)]
  exact (Ring.take_cells hn).symm

/-- `kfifo_peek_to_buf` copies the oldest bytes, when there are enough. -/
theorem peekToBuf_spec (h : f.WellFormed) (e : Content) (n : UInt32) :
    f.peekToBuf e n = if n.toNat ≤ f.len.toNat then
      (CQueue.fill (f.contents.take n.toNat) e, n) else (e, 0) := by
  have hplace : f.outIdx.toNat % f.size.toNat < f.size.toNat := Nat.mod_lt _ h.size_pos
  unfold peekToBuf
  by_cases hn : n.toNat ≤ f.len.toNat
  · obtain ⟨-, -, hbuff1, hbuff2, hlen1, hlen2⟩ := peek_spec h hn
    have htake : f.contents.take n.toNat =
        Ring.cells f.buffer f.size.toNat (f.outIdx.toNat % f.size.toNat) n.toNat :=
      Ring.take_cells hn
    rw [if_pos hn, htake, ← read_pieces hplace (Nat.le_trans hn h.len_le)]
    simp only [if_pos (peek_spec h hn).2.1, hbuff1, hbuff2, hlen1, hlen2, Nat.zero_add]
  · have hne : ¬ n = (0 : UInt32) + 0 := by
      rintro rfl
      exact hn (Nat.zero_le _)
    rw [if_neg hn, peek_of_lt (Nat.lt_of_not_le hn)]
    simp only [if_neg hne]

/-- `kfifo_init` takes powers of two only. -/
theorem wellFormed_init {buffer : Content} {size : UInt32} (h : init buffer size = some f) :
    f.WellFormed ∧ f.size = size ∧ f.contents = [] := by
  unfold init isPowerOf2 at h
  split_ifs at h with hpow
  obtain rfl := Option.some.inj h
  obtain ⟨hne, hand⟩ : size ≠ 0 ∧ size &&& (size - 1) = 0 := by simpa using hpow
  have hpos : size.toNat ≠ 0 := fun hzero => hne (UInt32.toNat_inj.1 hzero)
  have hone : (1 : UInt32) ≤ size := UInt32.le_iff_toNat_le.2 (Nat.pos_of_ne_zero hpos)
  have hand' : size.toNat &&& (size.toNat - 1) = 0 := by
    have hnat := congrArg UInt32.toNat hand
    rwa [UInt32.toNat_and, UInt32.toNat_sub_of_le _ _ hone] at hnat
  obtain ⟨k, hk⟩ := (Nat.and_sub_one_eq_zero_iff_isPowerOfTwo hpos).1 hand'
  have hk32 : k < 32 := by
    have hlt := size.toNat_lt
    rw [hk] at hlt
    exact (Nat.pow_lt_pow_iff_right (by decide)).1 hlt
  have hlen : (⟨buffer, size, 0, 0⟩ : Kfifo).len.toNat = 0 := by
    rw [len, sub_self]
    rfl
  refine ⟨⟨⟨k, hk32, hk⟩, ?_⟩, rfl, ?_⟩
  · rw [hlen]
    exact Nat.zero_le _
  · rw [contents, hlen, Ring.cells_zero]

end Kfifo

/-! ### Sequences of calls -/

/-- The calls, with the caller's buffers and any lengths. -/
inductive KfifoCall where
  | put (e : Content) (len : UInt32)
  | get (e : Content) (len : UInt32)
  | peek (lenWant : UInt32)
  | peekToBuf (e : Content) (len : UInt32)
  | len
  | getFreeSpace

/-- What a call returns, and what is in the caller's buffer or in the pieces then. -/
inductive KfifoAnswer where
  | count (n : UInt32)
  | buffer (n : UInt32) (e : Content)
  | pieces (n : UInt32) (bytes : List UInt8)

namespace ByteDeque

variable {size : Nat}

/-- As many of the bytes as fit behind the others. -/
def append (d : ByteDeque size) (e : Content) (n : Nat) : ByteDeque size where
  bytes := d.bytes ++ (List.range (min n (size - d.bytes.length))).map e
  length_le := by
    have hle := d.length_le
    rw [List.length_append, List.length_map, List.length_range]
    omega

/-- What a call is for. -/
def kfifoCall (d : ByteDeque size) : KfifoCall → ByteDeque size × KfifoAnswer
  | .put e n => (d.append e n.toNat, .count (.ofNat (min n.toNat (size - d.bytes.length))))
  | .get e n => (d.drop n.toNat, .buffer (.ofNat (min n.toNat d.bytes.length))
      (CQueue.fill (d.bytes.take n.toNat) e))
  | .peek n => (d, if n.toNat ≤ d.bytes.length then .pieces n (d.bytes.take n.toNat)
      else .pieces 0 [])
  | .peekToBuf e n => (d, if n.toNat ≤ d.bytes.length then
      .buffer n (CQueue.fill (d.bytes.take n.toNat) e) else .buffer 0 e)
  | .len => (d, .count (.ofNat d.bytes.length))
  | .getFreeSpace => (d, .count (.ofNat (size - d.bytes.length)))

end ByteDeque

namespace Kfifo

variable {size : Nat} {f : Kfifo} {d : ByteDeque size}

/-- A call of the functions of the fifo. -/
def call (f : Kfifo) : KfifoCall → Kfifo × KfifoAnswer
  | .put e n => ((f.put e n).1, .count (f.put e n).2)
  | .get e n => ((f.get e n).1, .buffer (f.get e n).2.2 (f.get e n).2.1)
  | .peek n => (f, .pieces (f.peek n).ret (f.piece (f.peek n).buff1 (f.peek n).len1 ++
      f.piece (f.peek n).buff2 (f.peek n).len2))
  | .peekToBuf e n => (f, .buffer (f.peekToBuf e n).2 (f.peekToBuf e n).1)
  | .len => (f, .count f.len)
  | .getFreeSpace => (f, .count f.getFreeSpace)

/-- The bytes in the fifo are those of the list. -/
structure Represents (f : Kfifo) (d : ByteDeque size) : Prop where
  wellFormed : f.WellFormed
  size_eq : f.size.toNat = size
  contents_eq : f.contents = d.bytes

theorem Represents.len_eq (h : Represents f d) : f.len.toNat = d.bytes.length := by
  rw [← h.contents_eq, length_contents]

/-- Every call has the answer that the list gives. -/
theorem call_simulates : Simulation.Simulates call (@ByteDeque.kfifoCall size) Represents := by
  intro f d c h
  have hwf := h.wellFormed
  have hlen := h.len_eq
  cases c with
  | put e n =>
    obtain ⟨hwf', hsize, hret, hcontents⟩ := put_spec hwf e n
    rw [h.size_eq, hlen] at hret
    refine ⟨?_, hwf', hsize ▸ h.size_eq, ?_⟩
    · change KfifoAnswer.count (f.put e n).2 = .count (.ofNat _)
      rw [← hret, UInt32.ofNat_toNat]
    · change (f.put e n).1.contents = _
      rw [hcontents, hret, h.contents_eq]
      rfl
  | get e n =>
    obtain ⟨hwf', hsize, hret, hbuffer, hcontents⟩ := get_spec hwf e n
    rw [hlen] at hret
    refine ⟨?_, hwf', hsize ▸ h.size_eq, ?_⟩
    · change KfifoAnswer.buffer (f.get e n).2.2 (f.get e n).2.1 = .buffer (.ofNat _) _
      rw [← hret, UInt32.ofNat_toNat, hbuffer, h.contents_eq]
    · change (f.get e n).1.contents = _
      rw [hcontents, h.contents_eq]
      rfl
  | peek n =>
    refine ⟨?_, h⟩
    change KfifoAnswer.pieces (f.peek n).ret _ = ite _ _ _
    split_ifs with hn
    · rw [← hlen] at hn
      rw [(peek_spec hwf hn).1, piece_peek hwf hn, h.contents_eq]
    · rw [← hlen] at hn
      rw [peek_of_lt (Nat.lt_of_not_le hn)]
      rfl
  | peekToBuf e n =>
    refine ⟨?_, h⟩
    change KfifoAnswer.buffer (f.peekToBuf e n).2 (f.peekToBuf e n).1 = ite _ _ _
    rw [peekToBuf_spec hwf, hlen, h.contents_eq]
    split_ifs <;> rfl
  | len =>
    refine ⟨?_, h⟩
    change KfifoAnswer.count f.len = .count (.ofNat _)
    rw [← hlen, UInt32.ofNat_toNat]
  | getFreeSpace =>
    refine ⟨?_, h⟩
    change KfifoAnswer.count f.getFreeSpace = .count (.ofNat _)
    rw [← hlen, ← h.size_eq, ← hwf.toNat_getFreeSpace, UInt32.ofNat_toNat]

/-- A fifo is a bounded list of bytes: every sequence of calls has the same answers, however often
the counters go round, and the bytes and the free space add up to the size. -/
theorem kfifo_refines_byteDeque {buffer : Content} {size : UInt32} {f : Kfifo}
    (hinit : init buffer size = some f) (calls : List KfifoCall) :
    let q := Simulation.run call f calls
    let d := Simulation.run ByteDeque.kfifoCall (ByteDeque.empty size.toNat) calls
    q.2 = d.2 ∧ q.1.contents = d.1.bytes ∧ q.1.len.toNat = d.1.bytes.length ∧
      q.1.len + q.1.getFreeSpace = size := by
  obtain ⟨hwf, hsize, hempty⟩ := wellFormed_init hinit
  have hrep : Represents f (ByteDeque.empty size.toNat) := ⟨hwf, by rw [hsize], hempty⟩
  obtain ⟨hanswers, hlast⟩ := call_simulates.run hrep calls
  refine ⟨hanswers, hlast.contents_eq, hlast.len_eq, ?_⟩
  rw [getFreeSpace_eq, add_sub_cancel]
  exact UInt32.toNat_inj.1 hlast.size_eq

/-- A fifo of four bytes goes round. -/
theorem kfifo_refines_byteDeque_four :
    let calls :=
      [.put (fun i => if i = 0 then 1 else 2) 3, .get (fun _ => 0) 2, .put (fun _ => 5) 9,
      .peek 4]
    let q := Simulation.run call ⟨fun _ => 0xFF, 4, 0, 0⟩ calls
    q.2 = (Simulation.run ByteDeque.kfifoCall (ByteDeque.empty 4) calls).2 ∧
      q.1.contents = [2, 5, 5, 5] :=
  ⟨(@kfifo_refines_byteDeque (fun _ => 0xFF) 4 _ (if_pos (by decide)) _).1, by decide⟩

end Kfifo

end EarbudFirmware
