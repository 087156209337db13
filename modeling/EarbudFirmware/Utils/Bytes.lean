import EarbudFirmware.Lib.NorMemory
import Mathlib.Data.List.GetD

/-!
# Numbers in memory

The processor is little-endian: a number of `n` bytes starts with its lowest byte.

## Main definitions

* `le` — the number at an address
* `leByte` — a byte of a number
* `leAt`, `leBytes` — the same in lists of bytes
* `bytesFrom` — a part of the address space

## Main results

* `le_leByte`, `leAt_leBytes` — the bytes of a number are read back
-/

namespace EarbudFirmware

open NorMemory (Content InRange)

/-- The little-endian number in the `n` bytes from `a` on. -/
def le (c : Content) (a : Nat) : Nat → Nat
  | 0 => 0
  | n + 1 => (c a).toNat + 256 * le c (a + 1) n

theorem le_cons (c : Content) (a n : Nat) :
    le c a (n + 1) = (c a).toNat + 256 * le c (a + 1) n := rfl

/-- The byte number `i` of a number. -/
def leByte (v i : Nat) : UInt8 := (v / 256 ^ i).toUInt8

theorem le_congr {c d : Content} {a n : Nat} (h : ∀ i, InRange a n i → c i = d i) :
    le c a n = le d a n := by
  induction n generalizing a with
  | zero => rfl
  | succ n ih =>
    rw [le_cons, le_cons, h a ⟨le_rfl, by omega⟩, ih fun i hi => h i ⟨by have := hi.1; omega,
      by have := hi.2; omega⟩]

theorem le_lt {c : Content} {a n : Nat} : le c a n < 256 ^ n := by
  induction n generalizing a with
  | zero => exact Nat.one_pos
  | succ n ih =>
    have hbyte := (c a).toNat_lt
    have hrest := ih (a := a + 1)
    rw [le_cons, pow_succ]
    omega

/-- Reading back the bytes of a number. -/
theorem le_leByte {c : Content} {v a n k : Nat} (h : ∀ i < n, c (a + i) = leByte v (k + i)) :
    le c a n = v / 256 ^ k % 256 ^ n := by
  induction n generalizing a k with
  | zero => simp [le, Nat.mod_one]
  | succ n ih =>
    have hhead : (c a).toNat = v / 256 ^ k % 256 := by
      have := h 0 (by omega)
      simp only [Nat.add_zero] at this
      rw [this]
      simp [leByte]
    have htail : le c (a + 1) n = v / 256 ^ (k + 1) % 256 ^ n := ih fun i hi => by
      have := h (i + 1) (by omega)
      rw [show a + 1 + i = a + (i + 1) by omega, this]
      congr 1
      omega
    rw [le_cons, hhead, htail, pow_succ, ← Nat.div_div_eq_div_mul, pow_succ 256 n, mul_comm (256 ^ n),
      Nat.mod_mul]

/-- A number that begins behind `a`. -/
theorem le_add {c : Content} {a k n : Nat} : le c (a + k) n = le (fun i => c (a + i)) k n := by
  induction n generalizing k with
  | zero => rfl
  | succ n ih => rw [le_cons, le_cons, Nat.add_assoc, ih]

/-- A number that was written. -/
theorem le_overlay {c : Content} {a n v : Nat} :
    le (NorMemory.overlay a n (leByte v) c) a n = v % 256 ^ n := by
  rw [le_leByte (v := v) (k := 0), Nat.pow_zero, Nat.div_one]
  intro i hi
  rw [NorMemory.overlay_of_inRange ⟨Nat.le_add_right _ _, Nat.add_lt_add_left hi a⟩,
    Nat.add_sub_cancel_left, Nat.zero_add]

/-- A number beside the bytes that are written. -/
theorem le_overlay_of_disjoint {c d : Content} {a b m n : Nat} (h : a + n ≤ b ∨ b + m ≤ a) :
    le (NorMemory.overlay b m d c) a n = le c a n := by
  refine le_congr fun i hi => NorMemory.overlay_of_not_inRange (fun hin => ?_) d c
  obtain ⟨hle, hlt⟩ := hi
  obtain ⟨hle', hlt'⟩ := hin
  omega

/-- A byte counts for its place. -/
theorem byte_mul_le {c : Content} {a k n : Nat} (hk : k < n) :
    (c (a + k)).toNat * 256 ^ k ≤ le c a n := by
  induction n generalizing a k with
  | zero => cases hk
  | succ n ih =>
    rw [le_cons]
    cases k with
    | zero =>
      rw [Nat.pow_zero, Nat.mul_one]
      exact Nat.le_add_right _ _
    | succ k =>
      have hrest := @ih (a + 1) k (Nat.lt_of_succ_lt_succ hk)
      have hsum : a + (k + 1) = a + 1 + k := by omega
      rw [hsum, pow_succ, ← Nat.mul_assoc, Nat.mul_comm _ 256]
      exact Nat.le_trans (Nat.mul_le_mul_left 256 hrest) (Nat.le_add_left _ _)

/-- Numbers that differ in one byte only are different. -/
theorem le_ne_of_byte_ne {c c' : Content} {a n p : Nat} (hp : InRange a n p) (hne : c p ≠ c' p)
    (hsame : ∀ q, InRange a n q → q ≠ p → c q = c' q) : le c a n ≠ le c' a n := by
  induction n generalizing a with
  | zero => exact absurd hp.2 (Nat.not_lt.mpr hp.1)
  | succ n ih =>
    obtain ⟨hle, hlt⟩ := hp
    rw [le_cons, le_cons]
    have hbyte := (c a).toNat_lt
    have hbyte' := (c' a).toNat_lt
    rcases Nat.eq_or_lt_of_le hle with rfl | hgt
    · have hhead : (c a).toNat ≠ (c' a).toNat := fun h => hne (UInt8.toNat_inj.mp h)
      omega
    · have htail : le c (a + 1) n ≠ le c' (a + 1) n :=
        ih ⟨hgt, by omega⟩ fun q hq => hsame q ⟨by have := hq.1; omega, by have := hq.2; omega⟩
      omega

/-! ### Numbers in lists -/

/-- The little-endian number in the `n` bytes from `a` on; behind the bytes there are zeros. -/
def leAt (l : List UInt8) (a n : Nat) : Nat := le (fun i => l.getD i 0) a n

/-- The `n` bytes of a little-endian number. -/
def leBytes (n v : Nat) : List UInt8 := (List.range n).map (leByte v)

section Lists

variable {l t : List UInt8} {a n m v : Nat}

theorem leAt_congr {l' : List UInt8} (h : ∀ i, a ≤ i → i < a + n → l[i]? = l'[i]?) :
    leAt l a n = leAt l' a n := by
  unfold leAt
  refine le_congr fun i hi => ?_
  rw [List.getD_eq_getElem?_getD, List.getD_eq_getElem?_getD, h i hi.1 hi.2]

theorem leAt_append_right : leAt (l ++ t) (l.length + a) n = leAt t a n := by
  unfold leAt
  induction n generalizing a with
  | zero => rfl
  | succ n ih =>
    rw [le_cons, le_cons, Nat.add_assoc, ih, List.getD_append_right _ _ _ _ (Nat.le_add_right _ _),
      Nat.add_sub_cancel_left]

theorem leAt_take (h : a + n ≤ m) : leAt (l.take m) a n = leAt l a n :=
  leAt_congr fun i _ hi => List.getElem?_take_of_lt (by omega)

@[simp] theorem length_leBytes : (leBytes n v).length = n := by
  rw [leBytes, List.length_map, List.length_range]

/-- A number is read back from its bytes. -/
theorem leAt_leBytes : leAt (leBytes n v ++ t) 0 n = v % 256 ^ n := by
  have h : ∀ i < n, (fun i => (leBytes n v ++ t).getD i 0) (0 + i) = leByte v (0 + i) := by
    intro i hi
    have hlen : i < (leBytes n v).length := by
      rw [length_leBytes]
      exact hi
    rw [Nat.zero_add]
    show (leBytes n v ++ t).getD i 0 = leByte v i
    rw [List.getD_append _ _ _ _ hlen, List.getD_eq_getElem _ _ hlen]
    simp [leBytes]
  rw [leAt, le_leByte h, pow_zero, Nat.div_one]

/-- A buffer that agrees with a list has its first bytes. -/
theorem map_range_eq_take {f : Content} (h : ∀ i < n, l[i]? = some (f i)) :
    (List.range n).map f = l.take n := by
  refine List.ext_getElem? fun i => ?_
  by_cases hi : i < n
  · rw [List.getElem?_take_of_lt hi, h i hi, List.getElem?_map, List.getElem?_range hi]
    rfl
  · rw [List.getElem?_eq_none (by simp; omega), List.getElem?_eq_none (by simp; omega)]

/-- The buffer of a list has its bytes. -/
theorem map_range_getD : (List.range l.length).map (fun i => l.getD i 0) = l := by
  have hget : ∀ i < l.length, l[i]? = some (l.getD i 0) := by
    intro i hi
    rw [List.getD_eq_getElem _ _ hi, List.getElem?_eq_getElem hi]
  rw [map_range_eq_take hget, List.take_length]

end Lists

/-! ### The address space -/

section AddressSpace

variable {c c' : Content} {a m n : Nat}

/-- The `n` bytes from `a` on, in an address space of 32 bits. -/
def bytesFrom (c : Content) (a n : Nat) : List UInt8 :=
  (List.range n).map fun i => c ((a + i) % 0x100000000)

theorem length_bytesFrom : (bytesFrom c a n).length = n := by
  rw [bytesFrom, List.length_map, List.length_range]

theorem bytesFrom_add : bytesFrom c a (m + n) = bytesFrom c a m ++ bytesFrom c (a + m) n := by
  rw [bytesFrom, bytesFrom, bytesFrom, List.range_add, List.map_append, List.map_map]
  congr 1
  refine List.map_congr_left fun i _ => ?_
  rw [Function.comp_apply, Nat.add_assoc]

theorem bytesFrom_congr
    (h : ∀ i < n, c ((a + i) % 0x100000000) = c' ((a + i) % 0x100000000)) :
    bytesFrom c a n = bytesFrom c' a n :=
  List.map_congr_left fun i hi => h i (List.mem_range.mp hi)

/-- The byte number `m` of a range, with those before and behind it. -/
theorem bytesFrom_split (hm : m < n) :
    bytesFrom c a n = bytesFrom c a m ++
      c ((a + m) % 0x100000000) :: bytesFrom c (a + m + 1) (n - m - 1) := by
  have hn : n = m + (1 + (n - m - 1)) := by omega
  conv_lhs => rw [hn, bytesFrom_add, bytesFrom_add]
  rfl

end AddressSpace

end EarbudFirmware
