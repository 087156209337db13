import EarbudFirmware.Utils.Bytes
import Mathlib.Data.UInt

/-!
# The checksum `crc32_c`

## Main definitions

* `crcTable` — the table that `make_crc_table` fills
* `crc32C` — the checksum of a buffer, started from the checksum of what precedes it
* `crcOver` — the checksum of a part of the address space

## Main results

* `crc32C_append` — a buffer may be processed in pieces
* `crcByte_xor`, `foldl_crcByte_xor` — states differ by what the difference before makes
* `crc32C_ne_of_byte_ne` — a checksum tells when one byte is another one
-/

namespace EarbudFirmware

/-- One round of the inner loop of `make_crc_table`. -/
def crcRound (c : UInt32) : UInt32 :=
  if c &&& 1 ≠ 0 then (0xedb88320 : UInt32) ^^^ (c >>> 1) else c >>> 1

/-- `crc_table[n]`. -/
def crcTable (n : UInt32) : UInt32 := crcRound^[8] n

/-- The loop of `crc32_c` for one byte. -/
def crcByte (c : UInt32) (b : UInt8) : UInt32 :=
  crcTable ((c ^^^ b.toUInt32) &&& 0xff) ^^^ (c >>> 8)

/-- `crc32_c`. -/
def crc32C (crc : UInt32) (buf : List UInt8) : UInt32 :=
  buf.foldl crcByte (crc ^^^ 0xffffffff) ^^^ 0xffffffff

/-- A buffer may be processed in pieces. -/
theorem crc32C_append (crc : UInt32) (a b : List UInt8) :
    crc32C crc (a ++ b) = crc32C (crc32C crc a) b := by
  have hcancel : ∀ c : UInt32, c ^^^ 0xffffffff ^^^ 0xffffffff = c := by
    intro c
    rw [UInt32.xor_assoc, UInt32.xor_self, UInt32.xor_zero]
  simp only [crc32C, List.foldl_append, hcancel]

@[simp] theorem crc32C_nil (crc : UInt32) : crc32C crc [] = crc := by
  simp only [crc32C, List.foldl_nil]
  rw [UInt32.xor_assoc, UInt32.xor_self, UInt32.xor_zero]

/-- `crc32_c` over `n` bytes of the address space from `a` on. -/
def crcOver (c : NorMemory.Content) (a n : Nat) : UInt32 := crc32C 0 (bytesFrom c a n)

theorem crcOver_congr {c c' : NorMemory.Content} {a n : Nat}
    (h : ∀ i < n, c ((a + i) % 0x100000000) = c' ((a + i) % 0x100000000)) :
    crcOver c a n = crcOver c' a n := congrArg (crc32C 0) (bytesFrom_congr h)

/-! ### Differences -/

theorem and_one_eq (c : UInt32) : c &&& 1 = 0 ∨ c &&& 1 = 1 := by
  have h : (c &&& 1).toNat = c.toNat % 2 := by
    rw [UInt32.toNat_and]
    exact Nat.and_one_is_mod _
  rcases Nat.mod_two_eq_zero_or_one c.toNat with h0 | h1
  · exact .inl (UInt32.toNat_inj.mp (h.trans h0))
  · exact .inr (UInt32.toNat_inj.mp (h.trans h1))

theorem xor_and_eq (a b m : UInt32) : (a ^^^ b) &&& m = (a &&& m) ^^^ (b &&& m) := by
  apply UInt32.toBitVec_inj.mp
  rw [UInt32.toBitVec_and, UInt32.toBitVec_xor, UInt32.toBitVec_xor, UInt32.toBitVec_and,
    UInt32.toBitVec_and]
  ext i
  rw [BitVec.getElem_and, BitVec.getElem_xor, BitVec.getElem_xor, BitVec.getElem_and,
    BitVec.getElem_and, Bool.and_xor_distrib_right]

theorem xor_xor_xor_comm (a b c d : UInt32) : a ^^^ b ^^^ (c ^^^ d) = a ^^^ c ^^^ (b ^^^ d) := by
  rw [UInt32.xor_assoc, ← UInt32.xor_assoc b, UInt32.xor_comm b c, UInt32.xor_assoc c,
    ← UInt32.xor_assoc]

theorem crcRound_xor (a b : UInt32) : crcRound (a ^^^ b) = crcRound a ^^^ crcRound b := by
  unfold crcRound
  rw [xor_and_eq, UInt32.shiftRight_xor]
  rcases and_one_eq a with ha | ha <;> rcases and_one_eq b with hb | hb <;> rw [ha, hb]
  · rfl
  · rw [if_pos (by decide), if_neg (by decide), if_pos (by decide), ← UInt32.xor_assoc,
      ← UInt32.xor_assoc, UInt32.xor_comm 0xedb88320]
  · rw [if_pos (by decide), if_pos (by decide), if_neg (by decide), UInt32.xor_assoc]
  · rw [if_neg (by decide), if_pos (by decide), if_pos (by decide), xor_xor_xor_comm,
      UInt32.xor_self, UInt32.zero_xor]

theorem crcTable_xor (a b : UInt32) : crcTable (a ^^^ b) = crcTable a ^^^ crcTable b := by
  have hiterate : ∀ n (a b : UInt32),
      crcRound^[n] (a ^^^ b) = crcRound^[n] a ^^^ crcRound^[n] b := by
    intro n
    induction n with
    | zero => exact fun _ _ => rfl
    | succ n ih =>
      intro a b
      rw [Function.iterate_succ_apply, Function.iterate_succ_apply, Function.iterate_succ_apply,
        crcRound_xor, ih]
  exact hiterate 8 a b

/-- Different states and different bytes leave states that differ by the image of the
difference. -/
theorem crcByte_xor (c d : UInt32) (a b : UInt8) :
    crcByte (c ^^^ d) (a ^^^ b) = crcByte c a ^^^ crcByte d b := by
  unfold crcByte
  rw [UInt8.toUInt32_xor, xor_xor_xor_comm c d, xor_and_eq, crcTable_xor, UInt32.shiftRight_xor,
    xor_xor_xor_comm]

/-- The same bytes behind different states. -/
theorem foldl_crcByte_xor (c d : UInt32) (l : List UInt8) :
    (List.replicate l.length 0).foldl crcByte (c ^^^ d) =
      l.foldl crcByte c ^^^ l.foldl crcByte d := by
  induction l generalizing c d with
  | nil => rfl
  | cons b l ih =>
    have hbyte : crcByte (c ^^^ d) 0 = crcByte c b ^^^ crcByte d b := by
      rw [← crcByte_xor, UInt8.xor_self]
    rw [List.length_cons, List.replicate_succ, List.foldl_cons, List.foldl_cons, List.foldl_cons,
      hbyte, ih]

/-- A table entry of which the highest byte is clear is the first one. -/
theorem eq_zero_of_crcTable_lt :
    ∀ n < 256, (crcTable (.ofNat n)).toNat < 0x1000000 → n = 0 := by decide +kernel

/-- A state other than zero does not become zero. -/
theorem crcByte_eq_zero {c : UInt32} (h : crcByte c 0 = 0) : c = 0 := by
  have hzero : (0 : UInt8).toUInt32 = 0 := rfl
  rw [crcByte, hzero, UInt32.xor_zero, UInt32.xor_eq_zero_iff] at h
  have hshift : (c >>> 8).toNat = c.toNat / 256 := by
    rw [UInt32.toNat_shiftRight, Nat.shiftRight_eq_div_pow]
    rfl
  have hmask : (c &&& 0xff).toNat = c.toNat % 256 := by
    rw [UInt32.toNat_and]
    exact Nat.and_two_pow_sub_one_eq_mod c.toNat 8
  have hlt := c.toNat_lt
  have hlow : (c &&& 0xff).toNat = 0 := by
    apply eq_zero_of_crcTable_lt
    · omega
    · rw [UInt32.ofNat_toNat, h, hshift]
      omega
  have hindex : c &&& 0xff = 0 := UInt32.toNat_inj.mp hlow
  rw [hindex] at h
  have hhigh : (c >>> 8).toNat = 0 := by
    rw [← h]
    rfl
  apply UInt32.toNat_inj.mp
  change c.toNat = 0
  omega

/-- A byte other than zero makes a difference. -/
theorem crcByte_zero_eq_zero {b : UInt8} (h : crcByte 0 b = 0) : b = 0 := by
  have hindex : (0 ^^^ b.toUInt32) &&& 0xff = b.toUInt32 := by
    apply UInt32.toNat_inj.mp
    rw [UInt32.zero_xor, UInt32.toNat_and, UInt8.toNat_toUInt32]
    exact (Nat.and_two_pow_sub_one_eq_mod b.toNat 8).trans (Nat.mod_eq_of_lt b.toNat_lt)
  rw [crcByte, hindex, UInt32.zero_shiftRight, UInt32.xor_zero] at h
  have hnat : b.toNat = 0 := by
    apply eq_zero_of_crcTable_lt _ b.toNat_lt
    have hof : UInt32.ofNat b.toNat = b.toUInt32 := by
      rw [← UInt8.toNat_toUInt32, UInt32.ofNat_toNat]
    rw [hof, h]
    decide
  exact UInt8.toNat_inj.mp hnat

/-- Zeros do not make a difference disappear. -/
theorem foldl_zeros_ne_zero {c : UInt32} (hc : c ≠ 0) (n : Nat) :
    (List.replicate n 0).foldl crcByte c ≠ 0 := by
  induction n generalizing c with
  | zero => exact hc
  | succ n ih => exact ih fun h => hc (crcByte_eq_zero h)

/-- Buffers that differ in one byte have different checksums. -/
theorem crc32C_ne_of_byte_ne {a b : UInt8} (hab : a ≠ b) (crc : UInt32) (l t : List UInt8) :
    crc32C crc (l ++ a :: t) ≠ crc32C crc (l ++ b :: t) := by
  rw [crc32C, crc32C, List.foldl_append, List.foldl_append, List.foldl_cons, List.foldl_cons, ne_eq,
    UInt32.xor_left_inj, ← UInt32.xor_eq_zero_iff, ← foldl_crcByte_xor, ← crcByte_xor,
    UInt32.xor_self]
  apply foldl_zeros_ne_zero
  exact fun h => hab (UInt8.xor_eq_zero_iff.mp (crcByte_zero_eq_zero h))

/-- A range that differs in one byte has another checksum. -/
theorem crcOver_ne_of_byte_ne {c c' : NorMemory.Content} {a m n : Nat} (hm : m < n)
    (hne : c ((a + m) % 0x100000000) ≠ c' ((a + m) % 0x100000000))
    (hsame : ∀ i < n, i ≠ m → c ((a + i) % 0x100000000) = c' ((a + i) % 0x100000000)) :
    crcOver c a n ≠ crcOver c' a n := by
  have hbefore : bytesFrom c a m = bytesFrom c' a m :=
    bytesFrom_congr fun i hi => hsame i (Nat.lt_trans hi hm) (Nat.ne_of_lt hi)
  have hbehind : bytesFrom c (a + m + 1) (n - m - 1) = bytesFrom c' (a + m + 1) (n - m - 1) := by
    refine bytesFrom_congr fun i hi => ?_
    have hsum : a + m + 1 + i = a + (m + 1 + i) := by omega
    rw [hsum]
    exact hsame _ (by omega) (by omega)
  rw [crcOver, crcOver, bytesFrom_split hm, bytesFrom_split hm, hbefore, hbehind]
  exact crc32C_ne_of_byte_ne hne _ _ _

/-- The check value of the polynomial. -/
example : crc32C 0 [0x31, 0x32, 0x33, 0x34, 0x35, 0x36, 0x37, 0x38, 0x39] = 0xCBF43926 := by
  decide +kernel

example : crcTable 1 = 0x77073096 ∧ crcTable 255 = 0x2D02EF8D := by decide +kernel

end EarbudFirmware
