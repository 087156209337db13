import EarbudFirmware.Norflash.Queue

/-!
# Flash service: the content a queue stands for

The pending operations of a module, applied to the flash, give the content that the module will end
with. This file studies one queue over one area of the flash, in the addresses of the module.

## Main definitions

* `Area` — the sectors and the bounds of a module's area
* `OperaInfo.Placed` — a node that fits the area
* `settled` — the content that a queue and the flash under it stand for
* `QueueStep` — a step that executes the oldest node or does not concern the module

## Main results

* `QueueStep.settled_eq` — executing the oldest node does not change the content
* `settled_filter_survives`, `settled_cons_erase`, `settled_widen` — what the additions change
-/

namespace EarbudFirmware.Norflash

open NorMemory

/-- The area of a module: the addresses from `lo` to `hi`, with erase units of `secLen` and
`blockLen` bytes. -/
structure Area where
  secLen : Nat
  blockLen : Nat
  lo : Nat
  hi : Nat
  secLen_pos : 0 < secLen
  blockLen_pos : 0 < blockLen
  dvd_blockLen : secLen ∣ blockLen

/-- An address of the area. -/
def Area.Mem (A : Area) (x : Nat) : Prop := A.lo ≤ x ∧ x < A.hi

/-- The node fits the area: a write node belongs to one sector, an erase node to whole sectors. -/
def OperaInfo.Placed (A : Area) (n : OperaInfo) : Prop :=
  A.secLen ∣ n.addr ∧
    match n.opera with
    | .writting wOffs wLen _ =>
      n.len = A.secLen ∧ 0 < wLen ∧ wOffs + wLen ≤ A.secLen ∧
        A.lo ≤ n.addr + wOffs ∧ n.addr + wOffs + wLen ≤ A.hi
    | .erasing => (n.len = A.secLen ∨ n.len = A.blockLen) ∧ A.lo ≤ n.addr ∧ n.addr + n.len ≤ A.hi

/-- The node covers the sector that starts at `start`. -/
def OperaInfo.OverSector (start : Nat) (n : OperaInfo) : Prop :=
  n.addr ≤ start ∧ start < n.addr + n.len

instance (start : Nat) (n : OperaInfo) : Decidable (n.OverSector start) :=
  inferInstanceAs (Decidable (_ ∧ _))

/-- The content of the address `x` once the queue has been executed on the flash `f`. -/
def settled (q : List OperaInfo) (f : Content) (x : Nat) : UInt8 :=
  settle (q.map (·.op)) x (f x)

/-! ### Sectors -/

theorem secStart_le (secLen x : Nat) : secStart secLen x ≤ x := Nat.div_mul_le_self x secLen

theorem lt_secStart_add {secLen : Nat} (h : 0 < secLen) (x : Nat) :
    x < secStart secLen x + secLen := by
  have := Nat.lt_div_mul_add h (a := x)
  unfold secStart
  omega

theorem dvd_secStart (secLen x : Nat) : secLen ∣ secStart secLen x := Nat.dvd_mul_left _ _

/-- A sector boundary at or before `x` is at or before the start of its sector. -/
theorem le_secStart {secLen a x : Nat} (h : 0 < secLen) (ha : secLen ∣ a) (hx : a ≤ x) :
    a ≤ secStart secLen x := by
  obtain ⟨k, rfl⟩ := ha
  unfold secStart
  rw [mul_comm]
  exact Nat.mul_le_mul_right _ ((Nat.le_div_iff_mul_le h).2 (by rwa [mul_comm]))

/-- Two different sector boundaries are a sector apart. -/
theorem add_le_of_dvd_of_lt {secLen a b : Nat} (ha : secLen ∣ a) (hb : secLen ∣ b) (h : a < b) :
    a + secLen ≤ b := by
  obtain ⟨j, rfl⟩ := ha
  obtain ⟨k, rfl⟩ := hb
  have hjk : j < k := Nat.lt_of_mul_lt_mul_left h
  calc secLen * j + secLen = secLen * (j + 1) := (Nat.mul_succ _ _).symm
    _ ≤ secLen * k := Nat.mul_le_mul_left _ hjk

theorem secStart_eq {secLen a x : Nat} (h : 0 < secLen) (ha : secLen ∣ a) (hle : a ≤ x)
    (hlt : x < a + secLen) : secStart secLen x = a := by
  refine le_antisymm ?_ (le_secStart h ha hle)
  by_contra hgt
  have := add_le_of_dvd_of_lt ha (dvd_secStart secLen x) (not_le.1 hgt)
  have := secStart_le secLen x
  omega

/-- A range of whole sectors contains an address exactly when it contains its sector. -/
theorem inRange_secStart {secLen addr len x : Nat} (h : 0 < secLen) (ha : secLen ∣ addr)
    (hlen : secLen ∣ len) : InRange addr len (secStart secLen x) ↔ InRange addr len x := by
  have hle := secStart_le secLen x
  have hlt := lt_secStart_add h x
  constructor
  · rintro ⟨hlo, hhi⟩
    have := add_le_of_dvd_of_lt (dvd_secStart secLen x) (Nat.dvd_add ha hlen) hhi
    exact ⟨by omega, by omega⟩
  · rintro ⟨hlo, hhi⟩
    exact ⟨le_secStart h ha hlo, by omega⟩

/-! ### Placed nodes -/

namespace OperaInfo.Placed

variable {A : Area} {n : OperaInfo}

theorem dvd_len (h : n.Placed A) : A.secLen ∣ n.len := by
  obtain ⟨-, h⟩ := h
  split at h
  · exact h.1 ▸ dvd_rfl
  · rcases h.1 with h | h
    · exact h ▸ dvd_rfl
    · exact h ▸ A.dvd_blockLen

theorem len_pos (h : n.Placed A) : 0 < n.len := by
  obtain ⟨-, h⟩ := h
  split at h
  · exact h.1 ▸ A.secLen_pos
  · rcases h.1 with h | h
    · exact h ▸ A.secLen_pos
    · exact h ▸ A.blockLen_pos

/-- The addresses that a node changes lie in its range. -/
theorem range_of_covers (h : n.Placed A) {x : Nat} (hx : n.op.Covers x) :
    n.addr ≤ x ∧ x < n.addr + n.len := by
  obtain ⟨-, h⟩ := h
  unfold OperaInfo.op at hx
  split at h <;> rename_i ho <;> simp only [ho, Op.Covers, InRange] at hx
  · omega
  · exact hx

/-- A node covers the sector of every address that it changes. -/
theorem overSector_of_covers (h : n.Placed A) {x : Nat} (hx : n.op.Covers x) :
    n.OverSector (secStart A.secLen x) := by
  obtain ⟨hle, hlt⟩ := h.range_of_covers hx
  have := secStart_le A.secLen x
  exact ⟨le_secStart A.secLen_pos h.1 hle, by omega⟩

/-- A node that covers the sector of `x` contains `x`. -/
theorem range_of_overSector (h : n.Placed A) {x : Nat}
    (hx : n.OverSector (secStart A.secLen x)) : n.addr ≤ x ∧ x < n.addr + n.len := by
  have h₁ := add_le_of_dvd_of_lt (dvd_secStart A.secLen x) (Nat.dvd_add h.1 h.dvd_len) hx.2
  have h₂ := lt_secStart_add A.secLen_pos x
  have h₃ := secStart_le A.secLen x
  have h₄ := hx.1
  omega

theorem covers_of_erasing (h : n.Placed A) (he : n.isErasing = true) {x : Nat}
    (hx : n.OverSector (secStart A.secLen x)) : n.op.Covers x := by
  have hr := h.range_of_overSector hx
  unfold OperaInfo.isErasing at he
  split at he
  · cases he
  case h_2 ho =>
    simp only [OperaInfo.op, ho]
    exact hr

/-- The one sector that a write node covers. -/
theorem overSector_iff_of_writting (h : n.Placed A) (hw : n.isErasing = false) {x : Nat} :
    n.OverSector (secStart A.secLen x) ↔ n.addr = secStart A.secLen x := by
  have hlen : n.len = A.secLen := by
    obtain ⟨-, h⟩ := h
    split at h
    · exact h.1
    case h_2 ho => simp [OperaInfo.isErasing, ho] at hw
  constructor
  · rintro ⟨hle, hlt⟩
    by_contra hne
    have := add_le_of_dvd_of_lt h.1 (dvd_secStart A.secLen x) (lt_of_le_of_ne hle hne)
    omega
  · intro heq
    have := A.secLen_pos
    exact ⟨heq.le, by omega⟩

theorem lock (h : n.Placed A) (b : Bool) : ({ n with lock := b } : OperaInfo).Placed A := h

/-- Merging a write into a node of its sector keeps the node in place. -/
theorem widen (h : n.Placed A) {wOffs len : Nat} {buffer : Nat → UInt8} (hpos : 0 < len)
    (hend : wOffs + len ≤ A.secLen) (hlo : A.lo ≤ n.addr + wOffs)
    (hhi : n.addr + wOffs + len ≤ A.hi) : (n.widen wOffs len buffer).Placed A := by
  obtain ⟨hdvd, h⟩ := h
  refine ⟨by rwa [widen_addr], ?_⟩
  split at h
  case h_1 offs wLen buff ho =>
    simp only [widen_opera ho, widen_addr, widen_len]
    omega
  case h_2 ho =>
    simp only [OperaInfo.widen, ho]
    exact h

end OperaInfo.Placed

@[simp] theorem op_lock (t : OperaInfo) (b : Bool) :
    ({ t with lock := b } : OperaInfo).op = t.op := rfl

/-! ### Executing the oldest node -/

/-- What a step that adds nothing to the queue of a module does to the queue `q` and to the flash
`f` in the area `A`: it works for another module, or the oldest node is suspended or completed. -/
inductive QueueStep (A : Area) (q : List OperaInfo) (f : Content) :
    List OperaInfo → Content → Prop where
  | stay {g : Content} (hg : ∀ x, A.Mem x → g x = f x) : QueueStep A q f q g
  | suspend {q₀ : List OperaInfo} {t : OperaInfo} {g : Content} (hq : q = q₀ ++ [t])
      (hg : ∀ x, A.Mem x → t.op.byteAt x (g x) = t.op.byteAt x (f x)) :
      QueueStep A q f (q₀ ++ [{ t with lock := true }]) g
  | complete {q₀ : List OperaInfo} {t : OperaInfo} {g : Content} (hq : q = q₀ ++ [t])
      (hg : ∀ x, A.Mem x → g x = t.op.byteAt x (f x)) : QueueStep A q f q₀ g

/-- Executing the oldest node does not change the content that the queue stands for. -/
theorem QueueStep.settled_eq {A : Area} {q q' : List OperaInfo} {f g : Content}
    (h : QueueStep A q f q' g) {x : Nat} (hx : A.Mem x) : settled q' g x = settled q f x := by
  cases h with
  | stay hg => rw [settled, settled, hg x hx]
  | suspend hq hg => simp [settled, hq, hg x hx]
  | complete hq hg => simp [settled, hq, hg x hx]

/-! ### Adding an erase -/

variable {A : Area} {q l r : List OperaInfo} {f : Content}

/-- The nodes above another one are not locked. -/
theorem UnlockedInit.of_append_cons {n m : OperaInfo} (h : UnlockedInit (l ++ n :: r))
    (hm : m ∈ l) : m.lock = false := by
  refine h m ?_
  rw [List.dropLast_append_of_ne_nil (List.cons_ne_nil _ _)]
  exact List.mem_append_left _ hm

theorem op_of_isErasing {n : OperaInfo} (h : n.isErasing = true) : ∃ a k, n.op = .erase a k := by
  unfold OperaInfo.isErasing at h
  split at h
  · cases h
  case h_2 ho => exact ⟨n.addr, n.len, by simp [OperaInfo.op, ho]⟩

/-- Outside the range, deleting the nodes in the range changes nothing. -/
theorem settled_filter_survives (hq : ∀ n ∈ q, n.Placed A) {addr len x : Nat}
    (hx : ¬InRange addr len x) :
    settled (q.filter (·.survives addr len)) f x = settled q f x := by
  refine settle_filter (fun n hn hcov => ?_) _
  have hr := (hq n hn).range_of_covers hcov
  by_contra hdel
  obtain ⟨-, hle, hge⟩ := survives_eq_false_iff.1 (Bool.not_eq_true _ ▸ hdel)
  exact hx ⟨by omega, by omega⟩

theorem settled_cons_erase {slot addr len x : Nat} {b : Bool} :
    settled ({ slot, addr, len, lock := b, opera := .erasing } :: q) f x =
      if InRange addr len x then 0xFF else settled q f x := rfl

/-- A write node over a sector of the range that is not deleted is locked. -/
theorem locked_of_survives {n : OperaInfo} (hn : n.Placed A) (hw : n.isErasing = false)
    {addr len x : Nat} (ha : A.secLen ∣ addr) (hlen : A.secLen ∣ len) (hx : InRange addr len x)
    (hover : n.OverSector (secStart A.secLen x)) (hs : n.survives addr len = true) :
    n.lock = true := by
  have hstart := (hn.overSector_iff_of_writting hw).1 hover
  have hnlen : n.len = A.secLen := by
    obtain ⟨-, hn⟩ := hn
    split at hn
    · exact hn.1
    case h_2 ho => simp [OperaInfo.isErasing, ho] at hw
  have h₁ := le_secStart A.secLen_pos ha hx.1
  have h₂ := secStart_le A.secLen x
  have h₃ := add_le_of_dvd_of_lt (dvd_secStart A.secLen x) (Nat.dvd_add ha hlen)
    (lt_of_le_of_lt h₂ hx.2)
  have hin : n.Inside addr len := ⟨by omega, by omega⟩
  simpa [OperaInfo.survives, hin] using hs

/-- When a locked erase absorbs the new one, only erases remain over the sectors of the range: the
absorbing node is the only locked one. -/
theorem isErasing_of_survives (hq : ∀ n ∈ q, n.Placed A) (hlock : UnlockedInit q)
    {addr len x : Nat} (ha : A.secLen ∣ addr) (hlen : A.secLen ∣ len) (hx : InRange addr len x)
    (habs : ∃ t ∈ q, t.absorbs addr len = true) {n : OperaInfo} (hn : n ∈ q)
    (hs : n.survives addr len = true) (hover : n.OverSector (secStart A.secLen x)) :
    n.isErasing = true := by
  by_contra hw
  rw [Bool.not_eq_true] at hw
  have hl := locked_of_survives (hq n hn) hw ha hlen hx hover hs
  obtain ⟨t, ht, habs⟩ := habs
  simp only [OperaInfo.absorbs, Bool.and_eq_true] at habs
  rcases List.eq_nil_or_concat' q with rfl | ⟨q₀, z, rfl⟩
  · cases hn
  · simp only [UnlockedInit, List.dropLast_concat] at hlock
    rcases List.mem_append.1 hn with hn | hn
    · simp [hlock n hn] at hl
    · rcases List.mem_append.1 ht with ht | ht
      · simp [hlock t ht] at habs
      · obtain rfl := List.mem_singleton.1 hn
        obtain rfl := List.mem_singleton.1 ht
        simp [hw] at habs

/-- When a locked erase absorbs the new one, a byte of the range ends erased exactly when a
remaining erase covers it or it is erased already. -/
theorem settled_absorbed_iff (hq : ∀ n ∈ q, n.Placed A) (hlock : UnlockedInit q)
    {addr len x : Nat} (ha : A.secLen ∣ addr) (hlen : A.secLen ∣ len) (hx : InRange addr len x)
    (habs : ∃ t ∈ q, t.absorbs addr len = true) :
    settled (q.filter (·.survives addr len)) f x = 0xFF ↔
      (∃ n ∈ q.filter (·.survives addr len), n.isErasing = true ∧ n.op.Covers x) ∨
        f x = 0xFF := by
  have herase : ∀ n ∈ q.filter (·.survives addr len), n.op.Covers x → n.isErasing = true := by
    intro n hn hcov
    obtain ⟨hn, hs⟩ := List.mem_filter.1 hn
    exact isErasing_of_survives hq hlock ha hlen hx habs hn hs ((hq n hn).overSector_of_covers hcov)
  by_cases hcov : ∃ n ∈ q.filter (·.survives addr len), n.op.Covers x
  · obtain ⟨n, hn, hcov⟩ := hcov
    refine iff_of_true (settle_eq_of_erases ⟨n.op, List.mem_map_of_mem hn, hcov⟩ ?_ _)
      (.inl ⟨n, hn, herase n hn hcov, hcov⟩)
    intro op hop hcov
    obtain ⟨n, hn, rfl⟩ := List.mem_map.1 hop
    exact op_of_isErasing (herase n hn hcov)
  · push Not at hcov
    have : settled (q.filter (·.survives addr len)) f x = f x := by
      refine settle_of_not_covered (fun op hop => ?_) _
      obtain ⟨n, hn, rfl⟩ := List.mem_map.1 hop
      exact hcov n hn
    rw [this]
    refine ⟨.inr, ?_⟩
    rintro (⟨n, hn, -, h⟩ | h)
    · exact absurd h (hcov n hn)
    · exact h

/-- An erase under nodes that only erase the byte leaves it erased. -/
theorem settled_eq_erased (hq : ∀ n ∈ l, n.Placed A) {n : OperaInfo} {x : Nat}
    (he : n.isErasing = true) (hcov : n.op.Covers x)
    (hl : ∀ m ∈ l, m.OverSector (secStart A.secLen x) → m.isErasing = true) :
    settled (l ++ n :: r) f x = 0xFF := by
  have hsplit : settled (l ++ n :: r) f x =
      settle ((l ++ [n]).map (·.op)) x (settle (r.map (·.op)) x (f x)) := by simp [settled]
  rw [hsplit]
  refine settle_eq_of_erases ⟨n.op, by simp, hcov⟩ (fun op hop hcov => ?_) _
  obtain ⟨m, hm, rfl⟩ := List.mem_map.1 hop
  rcases List.mem_append.1 hm with hm | hm
  · exact op_of_isErasing (hl m hm ((hq m hm).overSector_of_covers hcov))
  · obtain rfl := List.mem_singleton.1 hm
    exact op_of_isErasing he

/-! ### Adding a write -/

theorem op_writting {n : OperaInfo} {wOffs wLen : Nat} {buff : SectorBuffer}
    (h : n.opera = .writting wOffs wLen buff) :
    n.op = .program (n.addr + wOffs) wLen fun i => buff.bytes (wOffs + i) := by
  simp [OperaInfo.op, h]

/-- The effect of a write node on a byte of its window. -/
theorem byteAt_writting {n : OperaInfo} {wOffs wLen : Nat} {buff : SectorBuffer}
    (h : n.opera = .writting wOffs wLen buff) (x : Nat) (c : UInt8) :
    n.op.byteAt x c =
      if InRange (n.addr + wOffs) wLen x then c &&& buff.bytes (x - n.addr) else c := by
  rw [op_writting h]
  simp only [Op.byteAt]
  split_ifs with hx
  · obtain ⟨hle, -⟩ := hx
    congr 2
    omega
  · rfl

/-- The content under a new write node. -/
theorem settled_cons_write {n : OperaInfo} {wOffs wLen b : Nat} {buffer old : Nat → UInt8}
    (h : n.opera = .writting wOffs wLen ⟨b, overlay wOffs wLen buffer old⟩) (x : Nat)
    (hx : InRange (n.addr + wOffs) wLen x → settled q f x = 0xFF) :
    settled (n :: q) f x =
      if InRange (n.addr + wOffs) wLen x then buffer (x - (n.addr + wOffs)) else settled q f x := by
  have : settled (n :: q) f x = n.op.byteAt x (settled q f x) := rfl
  rw [this, byteAt_writting h]
  split_ifs with hr
  · have hin : InRange wOffs wLen (x - n.addr) := by
      unfold InRange at hr ⊢
      omega
    simp only [hx hr, erased_and, overlay_of_inRange hin]
    congr 1
    have := hr.1
    omega
  · rfl

/-- The content under a write node into which a write has been merged. The bytes that the widened
window covers besides must not be changed by the buffer. -/
theorem settled_widen {n : OperaInfo} {offs wLen wOffs len x : Nat} {buff : SectorBuffer}
    {buffer : Nat → UInt8} (ho : n.opera = .writting offs wLen buff)
    (hl : ∀ m ∈ l, ¬m.op.Covers x)
    (hones : InRange (n.addr + wOffs) len x → settled (l ++ n :: r) f x = 0xFF)
    (hgap : n.addr ≤ x →
      settled (l ++ n :: r) f x &&& buff.bytes (x - n.addr) = settled (l ++ n :: r) f x) :
    settled (l ++ n.widen wOffs len buffer :: r) f x =
      if InRange (n.addr + wOffs) len x then buffer (x - (n.addr + wOffs))
      else settled (l ++ n :: r) f x := by
  have hfirst : ∀ n', settled (l ++ n' :: r) f x = n'.op.byteAt x (settled r f x) := by
    intro n'
    rw [settled, List.map_append, List.map_cons, settle_eq_of_first (by simpa using hl)]
    rfl
  rw [hfirst] at hones hgap ⊢
  rw [hfirst, byteAt_writting (widen_opera ho buffer), widen_addr]
  rw [byteAt_writting ho] at hones hgap ⊢
  by_cases hd : InRange (n.addr + wOffs) len x
  · -- the new data
    have hx := hones hd
    have hc : settled r f x = 0xFF := by
      split_ifs at hx
      · exact (eq_erased_of_and hx).1
      · exact hx
    have hwin : InRange (n.addr + min offs wOffs)
        (max (offs + wLen) (wOffs + len) - min offs wOffs) x := by
      unfold InRange at hd ⊢
      omega
    have hin : InRange wOffs len (x - n.addr) := by
      unfold InRange at hd ⊢
      omega
    simp only [if_pos hwin, if_pos hd, hc, erased_and, overlay_of_inRange hin]
    congr 1
    have := hd.1
    omega
  · have hin : n.addr ≤ x → ¬InRange wOffs len (x - n.addr) := by
      unfold InRange at hd ⊢
      omega
    rw [if_neg hd]
    by_cases hold : InRange (n.addr + offs) wLen x
    · -- the old window
      have hwin : InRange (n.addr + min offs wOffs)
          (max (offs + wLen) (wOffs + len) - min offs wOffs) x := by
        unfold InRange at hold ⊢
        omega
      simp only [if_pos hwin, if_pos hold,
        overlay_of_not_inRange (hin (by have := hold.1; omega))]
    · rw [if_neg hold] at hgap ⊢
      split_ifs with hwin
      · -- a gap between the two windows
        have hle : n.addr ≤ x := by
          unfold InRange at hwin
          omega
        simp only [overlay_of_not_inRange (hin hle), hgap hle]
      · rfl

/-- Merging a write into a node does not concern the other sectors. -/
theorem settled_widen_of_ne {n : OperaInfo} {wOffs len x : Nat} {buffer : Nat → UInt8}
    (hn : n.Placed A) (hw : n.isErasing = false) (hn' : (n.widen wOffs len buffer).Placed A)
    (hx : secStart A.secLen x ≠ n.addr) :
    settled (l ++ n.widen wOffs len buffer :: r) f x = settled (l ++ n :: r) f x := by
  have hw' : (n.widen wOffs len buffer).isErasing = false := by
    unfold OperaInfo.isErasing at hw
    split at hw
    case h_1 offs wLen buff ho => simp [OperaInfo.isErasing, widen_opera ho]
    case h_2 => cases hw
  have hnc : ∀ m : OperaInfo, m.Placed A → m.isErasing = false → m.addr = n.addr →
      ¬m.op.Covers x := fun m hp hw ha hcov =>
    hx (((hp.overSector_iff_of_writting hw).1 (hp.overSector_of_covers hcov)).symm.trans ha)
  simp [settled, Op.byteAt_of_not_covers (hnc n hn hw rfl),
    Op.byteAt_of_not_covers (hnc _ hn' hw' (widen_addr _ _ _ _))]

end EarbudFirmware.Norflash
