import EarbudFirmware.Ota.Flash
import Mathlib.Data.Nat.Bitwise
import Mathlib.Data.List.Infix

/-!
# The check of the image behind a download

The checksum of an image stands in its tail, in hexadecimal digits behind a key word. The check
looks for the key word, puts the digits together and computes the checksum of what is before them.
What is read is a parameter here: of an image, nothing behind its end can be read.

## Main definitions

* `findKeyWord`, `imageSanityCheck` — `_find_key_word` and `_image_sanity_check`
* `CarriesChecksum` — what the check is for
* `ChecksExactly` — the check reads the image only, and accepts it if it carries its checksum
* `Checkable` — an image with which nothing goes wrong

## Main results

* `checksExactly_iff` — those images are the ones that are checked exactly
-/

namespace EarbudFirmware.AiOta

/-- `LEN_OF_IMAGE_TAIL_TO_FIND_SANITY_CRC`. -/
def lenOfImageTail : Nat := 512

/-- `oldImageSanityKeyWord`. -/
def oldImageSanityKeyWord : List UInt8 :=
  [0x43, 0x52, 0x43, 0x33, 0x32, 0x5F, 0x4F, 0x46, 0x5F, 0x49, 0x4D, 0x41, 0x47, 0x45, 0x3D]

/-- `imageSanityKeyWord`. -/
def imageSanityKeyWord : List UInt8 := oldImageSanityKeyWord ++ [0x30, 0x78]

/-- `_ascii2hex`, with the text of `asciiToHex`. -/
def ascii2hex : UInt8 → UInt8 := Ota.asciiToHex

/-! ### The functions -/

section Functions

-- what is read at an address; `none` is outside of what may be read
variable (rd : Nat → Option UInt8)

/-- The inner loop of `_find_key_word`: whether the key word is at an address. -/
def compareAt : Nat → List UInt8 → Option Bool
  | _, [] => some true
  | a, c :: keyArray => do
    let b ← rd a
    if b ≠ c then some false else compareAt (a + 1) keyArray

/-- The outer loop of `_find_key_word`, with `fuel` places left from `targetIndex` on. -/
def findFrom (tgtArray : Nat) (keyArray : List UInt8) : (fuel targetIndex : Nat) →
    Option (Option Nat)
  | 0, _ => some none
  | fuel + 1, targetIndex => do
    if ← compareAt rd (tgtArray + targetIndex) keyArray then some (some targetIndex)
    else findFrom tgtArray keyArray fuel (targetIndex + 1)

/-- `_find_key_word`. -/
def findKeyWord (tgtArray tgtArrayLen : Nat) (keyArray : List UInt8) : Option (Option Nat) :=
  if 0 < keyArray.length ∧ keyArray.length ≤ tgtArrayLen then
    findFrom rd tgtArray keyArray tgtArrayLen 0
  else some none

/-- The bytes from an address on. -/
def readBytes : (a n : Nat) → Option (List UInt8)
  | _, 0 => some []
  | a, n + 1 => do
    let b ← rd a
    let l ← readBytes (a + 1) n
    some (b :: l)

/-- The loop of `_image_sanity_check` over the digits. -/
def sanityCrc32 (crcString : Nat → UInt8) : UInt32 :=
  (List.range 8).foldl (fun crc i =>
    crc ||| (ascii2hex (crcString i)).toUInt32 <<< (28 - 4 * i).toUInt32) 0

/-- `_image_sanity_check`. -/
def imageSanityCheck (totalImageSize : Nat) : Option Bool := do
  match ← findKeyWord rd (totalImageSize - lenOfImageTail) lenOfImageTail imageSanityKeyWord with
  | none =>
    match ← findKeyWord rd (totalImageSize - lenOfImageTail) lenOfImageTail
        oldImageSanityKeyWord with
    | none => some false
    | some location =>
      let crc32ImageOffset :=
        location + totalImageSize - lenOfImageTail + oldImageSanityKeyWord.length
      let expected ← readBytes rd crc32ImageOffset 4
      let image ← readBytes rd 0 crc32ImageOffset
      some (leAt expected 0 4 = (crc32C 0 image).toNat)
  | some location =>
    let crc32ImageOffset := location + totalImageSize - lenOfImageTail + imageSanityKeyWord.length
    let crcString ← readBytes rd crc32ImageOffset 8
    let image ← readBytes rd 0 crc32ImageOffset
    some (sanityCrc32 (fun i => crcString.getD i 0) = crc32C 0 image)

end Functions

/-! ### Specification -/

/-- The rest of the image from a place in its tail on. -/
def tailFrom (image : List UInt8) (i : Nat) : List UInt8 :=
  image.drop (image.length - lenOfImageTail + i)

/-- The first key word in the tail of the image, with all of its bytes. -/
def FirstKeyWord (keyArray image : List UInt8) (l : Nat) : Prop :=
  keyArray <+: tailFrom image l ∧ ∀ i < l, ¬keyArray <+: tailFrom image i

/-- A hexadecimal digit. -/
def IsHexDigit (c : UInt8) : Prop := ascii2hex c ≠ 0xFF

instance (c : UInt8) : Decidable (IsHexDigit c) := inferInstanceAs (Decidable (_ ≠ _))

/-- Digit `j` of a checksum. -/
def crcDigit (crc : UInt32) (j : Nat) : Nat := crc.toNat / 16 ^ (7 - j) % 16

/-- The character behind the key word, at place `j`. -/
def crcChar (image : List UInt8) (l j : Nat) : UInt8 :=
  (tailFrom image (l + imageSanityKeyWord.length)).getD j 0

/-- The checksum of what is before the digits. -/
def crcBefore (image : List UInt8) (l : Nat) : UInt32 :=
  crc32C 0 (image.take (image.length - lenOfImageTail + (l + imageSanityKeyWord.length)))

/-- The first key word is followed by the eight digits of the checksum. -/
def CarriesChecksum (image : List UInt8) : Prop :=
  ∃ l, FirstKeyWord imageSanityKeyWord image l ∧
    l + imageSanityKeyWord.length + 8 ≤ lenOfImageTail ∧
    ∀ j < 8, IsHexDigit (crcChar image l j) ∧
      (ascii2hex (crcChar image l j)).toNat = crcDigit (crcBefore image l) j

/-- The check reads nothing outside of the image, and accepts it if and only if it carries its
checksum. -/
def ChecksExactly (image : List UInt8) : Prop :=
  ∃ b, imageSanityCheck (fun a => image[a]?) image.length = some b ∧
    (b = true ↔ CarriesChecksum image)

/-- The image has the old key word, and not the new one. -/
def OldForm (image : List UInt8) : Prop :=
  (∀ l, ¬imageSanityKeyWord <+: tailFrom image l) ∧ ∃ l, oldImageSanityKeyWord <+: tailFrom image l

/-- With characters that are not all hexadecimal digits the checksum does not fit: some digit is
neither the character's nor F where the character or the next one is no digit. -/
def Unfit (image : List UInt8) (l : Nat) : Prop :=
  ∃ j < 8, crcDigit (crcBefore image l) j ≠
    if IsHexDigit (crcChar image l j) ∧ (j + 1 < 8 → IsHexDigit (crcChar image l (j + 1))) then
      (ascii2hex (crcChar image l j)).toNat
    else 15

/-- The first key word has all eight characters inside of the image, and these are digits or do not
fit the checksum. Without a key word, the image does not end with the begin of one. -/
def Checkable (image : List UInt8) : Prop :=
  (∀ l, FirstKeyWord imageSanityKeyWord image l →
    l + imageSanityKeyWord.length + 8 ≤ lenOfImageTail ∧
      ((∀ j < 8, IsHexDigit (crcChar image l j)) ∨ Unfit image l)) ∧
  ((∀ l, ¬imageSanityKeyWord <+: tailFrom image l) →
    ∀ i < lenOfImageTail, ¬tailFrom image i <+: imageSanityKeyWord)

/-! ### The digits, put together -/

section Digits

theorem ascii2hex_lt {c : UInt8} (h : IsHexDigit c) : (ascii2hex c).toNat < 16 := by
  unfold IsHexDigit at h
  unfold ascii2hex Ota.asciiToHex at *
  split_ifs at h ⊢ with h₁ h₂ h₃
  · have := UInt8.le_iff_toNat_le.1 h₁.1
    have := UInt8.le_iff_toNat_le.1 h₁.2
    rw [UInt8.toNat_sub_of_le _ _ h₁.1]
    simp at *
    omega
  · have := UInt8.le_iff_toNat_le.1 h₂.1
    have := UInt8.le_iff_toNat_le.1 h₂.2
    rw [UInt8.toNat_add, UInt8.toNat_sub_of_le _ _ h₂.1]
    simp at *
    omega
  · have := UInt8.le_iff_toNat_le.1 h₃.1
    have := UInt8.le_iff_toNat_le.1 h₃.2
    rw [UInt8.toNat_add, UInt8.toNat_sub_of_le _ _ h₃.1]
    simp at *
    omega
  · exact absurd rfl h

/-- The bits of the shifted digits. -/
theorem testBit_foldl_or (x : Nat → UInt8) (n : Nat) (hn : n ≤ 8) (k : Nat) (hk : k < 32) :
    ((List.range n).foldl (fun crc i => crc ||| (x i).toUInt32 <<< (28 - 4 * i).toUInt32)
      (0 : UInt32)).toNat.testBit k = true ↔
      ∃ i < n, 28 - 4 * i ≤ k ∧ (x i).toNat.testBit (k - (28 - 4 * i)) = true := by
  induction n with
  | zero => simp
  | succ n ih =>
    rw [List.range_succ, List.foldl_append, List.foldl_cons, List.foldl_nil, UInt32.toNat_or,
      Nat.testBit_or, Bool.or_eq_true, ih (by omega)]
    have hshift : ((28 - 4 * n).toUInt32.toNat % 32) = 28 - 4 * n := by
      rw [Nat.toUInt32_eq, UInt32.toNat_ofNat_of_lt' (by simp [UInt32.size]; omega)]
      omega
    have hbit : (((x n).toUInt32 <<< (28 - 4 * n).toUInt32).toNat.testBit k = true) ↔
        28 - 4 * n ≤ k ∧ (x n).toNat.testBit (k - (28 - 4 * n)) = true := by
      rw [UInt32.toNat_shiftLeft, hshift, Nat.testBit_mod_two_pow, Nat.testBit_shiftLeft]
      simp [hk]
    rw [hbit]
    constructor
    · rintro (⟨i, hi, h⟩ | h)
      · exact ⟨i, by omega, h⟩
      · exact ⟨n, by omega, h⟩
    · rintro ⟨i, hi, h⟩
      obtain hlt | rfl := Nat.lt_succ_iff_lt_or_eq.1 hi
      · exact .inl ⟨i, hlt, h⟩
      · exact .inr h

variable {crc crc' : UInt32} {j r : Nat}

theorem testBit_crcDigit (hr : r < 4) :
    (crcDigit crc j).testBit r = crc.toNat.testBit (4 * (7 - j) + r) := by
  unfold crcDigit
  rw [show (16 : Nat) = 2 ^ 4 from rfl, ← Nat.pow_mul, Nat.testBit_mod_two_pow,
    Nat.testBit_div_two_pow]
  simp [hr, Nat.add_comm]

/-- Numbers of four bits. -/
theorem eq_of_testBit_four {a b : Nat} (ha : a < 16) (hb : b < 16)
    (h : ∀ r < 4, a.testBit r = b.testBit r) : a = b := by
  refine Nat.eq_of_testBit_eq fun r => ?_
  by_cases hr : r < 4
  · exact h r hr
  · have hpow : 16 ≤ 2 ^ r :=
      Nat.le_trans (by decide : 16 ≤ 2 ^ 4) (Nat.pow_le_pow_right (by decide) (by omega))
    rw [Nat.testBit_lt_two_pow (by omega), Nat.testBit_lt_two_pow (by omega)]

theorem eq_iff_crcDigit : crc = crc' ↔ ∀ j < 8, crcDigit crc j = crcDigit crc' j := by
  refine ⟨fun h j _ => h ▸ rfl, fun h => UInt32.toNat_inj.1 (Nat.eq_of_testBit_eq fun k => ?_)⟩
  by_cases hk : k < 32
  · have hsplit : 4 * (7 - (7 - k / 4)) + k % 4 = k := by omega
    have hdigit := congrArg (fun d => d.testBit (k % 4)) (h (7 - k / 4) (by omega))
    rwa [testBit_crcDigit (by omega), testBit_crcDigit (by omega), hsplit] at hdigit
  · have hpow : 2 ^ 32 ≤ 2 ^ k := Nat.pow_le_pow_right (by decide) (by omega)
    have := crc.toNat_lt
    have := crc'.toNat_lt
    rw [Nat.testBit_lt_two_pow (by omega), Nat.testBit_lt_two_pow (by omega)]

/-- The low half of a character comes to its own place, the high half to the one before. -/
theorem testBit_sanityCrc32 (s : Nat → UInt8) (hj : j < 8) (hr : r < 4) :
    (sanityCrc32 s).toNat.testBit (4 * (7 - j) + r) = true ↔
      (ascii2hex (s j)).toNat.testBit r = true ∨
        j + 1 < 8 ∧ (ascii2hex (s (j + 1))).toNat.testBit (r + 4) = true := by
  unfold sanityCrc32
  rw [testBit_foldl_or (fun i => ascii2hex (s i)) 8 (Nat.le_refl 8) _ (by omega)]
  constructor
  · rintro ⟨i, hi, hle, hbit⟩
    by_cases hij : i = j
    · subst hij
      rw [show 4 * (7 - i) + r - (28 - 4 * i) = r by omega] at hbit
      exact .inl hbit
    by_cases hij' : i = j + 1
    · subst hij'
      rw [show 4 * (7 - j) + r - (28 - 4 * (j + 1)) = r + 4 by omega] at hbit
      exact .inr ⟨hi, hbit⟩
    · -- a character has eight bits
      have hlt := (ascii2hex (s i)).toNat_lt
      have hpow : 2 ^ 8 ≤ 2 ^ (4 * (7 - j) + r - (28 - 4 * i)) :=
        Nat.pow_le_pow_right (by decide) (by omega)
      rw [Nat.testBit_lt_two_pow (by omega)] at hbit
      cases hbit
  · rintro (hbit | ⟨hj', hbit⟩)
    · refine ⟨j, hj, by omega, ?_⟩
      rwa [show 4 * (7 - j) + r - (28 - 4 * j) = r by omega]
    · refine ⟨j + 1, hj', by omega, ?_⟩
      rwa [show 4 * (7 - j) + r - (28 - 4 * (j + 1)) = r + 4 by omega]

/-- The digit that the character at a place and the next one lead to. -/
theorem crcDigit_sanityCrc32 (s : Nat → UInt8) (hj : j < 8) :
    crcDigit (sanityCrc32 s) j =
      if IsHexDigit (s j) ∧ (j + 1 < 8 → IsHexDigit (s (j + 1))) then (ascii2hex (s j)).toNat
      else 15 := by
  have hlow : ∀ {c : UInt8} {k}, IsHexDigit c → (ascii2hex c).toNat.testBit (k + 4) = false := by
    intro c k hc
    have hlt := ascii2hex_lt hc
    have hpow : 2 ^ 4 ≤ 2 ^ (k + 4) := Nat.pow_le_pow_right (by decide) (by omega)
    exact Nat.testBit_lt_two_pow (by omega)
  have hfull : ∀ {c : UInt8} {k}, ¬IsHexDigit c → k < 8 → (ascii2hex c).toNat.testBit k = true := by
    intro c k hc hk
    rw [Decidable.not_not.1 hc, show (0xFF : UInt8).toNat = 2 ^ 8 - 1 from rfl,
      Nat.testBit_two_pow_sub_one]
    simpa using hk
  have hdigit : crcDigit (sanityCrc32 s) j < 16 := Nat.mod_lt _ (by decide)
  split_ifs with h
  · obtain ⟨hc, hnext⟩ := h
    refine eq_of_testBit_four hdigit (ascii2hex_lt hc) fun r hr => ?_
    rw [testBit_crcDigit hr, Bool.eq_iff_iff, testBit_sanityCrc32 s hj hr]
    constructor
    · rintro (hbit | ⟨hj', hbit⟩)
      · exact hbit
      · rw [hlow (hnext hj')] at hbit
        cases hbit
    · exact .inl
  · refine eq_of_testBit_four hdigit (by decide) fun r hr => ?_
    rw [testBit_crcDigit hr, show (15 : Nat) = 2 ^ 4 - 1 from rfl, Nat.testBit_two_pow_sub_one,
      Bool.eq_iff_iff, testBit_sanityCrc32 s hj hr]
    refine ⟨fun _ => by simpa using hr, fun _ => ?_⟩
    by_cases hc : IsHexDigit (s j)
    · have hnext : j + 1 < 8 ∧ ¬IsHexDigit (s (j + 1)) := by
        by_contra hnot
        exact h ⟨hc, fun hj' => by_contra fun hn => hnot ⟨hj', hn⟩⟩
      exact .inr ⟨hnext.1, hfull hnext.2 (by omega)⟩
    · exact .inl (hfull hc (by omega))

end Digits

/-! ### What is read -/

section Reads

variable {image : List UInt8} {a n l : Nat}

/-- The bytes of an image are read as long as they are inside of it. -/
theorem readBytes_eq (image : List UInt8) (a n : Nat) :
    readBytes (fun a => image[a]?) a n =
      if a + n ≤ image.length ∨ n = 0 then some ((image.drop a).take n) else none := by
  induction n generalizing a with
  | zero => simp [readBytes]
  | succ n ih =>
    unfold readBytes
    by_cases ha : a < image.length
    · rw [List.getElem?_eq_getElem ha, ih]
      by_cases hn : a + (n + 1) ≤ image.length
      · rw [if_pos (by omega), if_pos (.inl hn), List.drop_eq_getElem_cons ha]
        rfl
      · rw [if_neg (by omega), if_neg (by omega)]
        rfl
    · rw [List.getElem?_eq_none (by omega), if_neg (by omega)]
      rfl

/-- The comparison reads outside of the image if what is left of it is a begin of the key word. -/
theorem compareAt_eq (image : List UInt8) (a : Nat) (keyArray : List UInt8) :
    compareAt (fun a => image[a]?) a keyArray =
      if keyArray <+: image.drop a then some true
      else if image.drop a <+: keyArray then none else some false := by
  induction keyArray generalizing a with
  | nil => simp [compareAt]
  | cons c keyArray ih =>
    unfold compareAt
    by_cases ha : a < image.length
    · rw [List.getElem?_eq_getElem ha, List.drop_eq_getElem_cons ha, Option.bind_eq_bind,
        Option.bind_some, ih]
      by_cases hc : image[a] = c
      · simp [hc]
      · have hkey : ¬c :: keyArray <+: image[a] :: image.drop (a + 1) := fun h =>
          hc (List.cons_prefix_cons.1 h).1.symm
        have himage : ¬image[a] :: image.drop (a + 1) <+: c :: keyArray := fun h =>
          hc (List.cons_prefix_cons.1 h).1
        rw [if_pos hc, if_neg hkey, if_neg himage]
    · rw [List.getElem?_eq_none (by omega), List.drop_eq_nil_of_le (by omega)]
      simp

/-- The search goes on where neither the key word is nor a begin of it at the end of the image. -/
theorem findFrom_eq (image : List UInt8) {keyArray : List UInt8} {tgtArray i : Nat}
    (hpass : ∀ k < n, ¬keyArray <+: image.drop (tgtArray + (i + k)) ∧
      ¬image.drop (tgtArray + (i + k)) <+: keyArray) (fuel : Nat) :
    findFrom (fun a => image[a]?) tgtArray keyArray (n + fuel) i =
      findFrom (fun a => image[a]?) tgtArray keyArray fuel (i + n) := by
  induction n generalizing i with
  | zero => rw [Nat.zero_add, Nat.add_zero]
  | succ n ih =>
    obtain ⟨hkey, himage⟩ := hpass 0 (Nat.zero_lt_succ n)
    rw [Nat.add_zero] at hkey himage
    rw [Nat.add_right_comm, findFrom, compareAt_eq, if_neg hkey, if_neg himage]
    have hnext := ih (i := i + 1) fun k hk => by
      have := hpass (k + 1) (by omega)
      rwa [show i + (k + 1) = i + 1 + k by omega] at this
    rw [show i + (n + 1) = i + 1 + n by omega]
    exact hnext

variable {keyArray : List UInt8}

/-- The first key word is found, if it is inside of the tail. -/
theorem findKeyWord_of_first (hpos : 0 < keyArray.length) (hle : keyArray.length ≤ lenOfImageTail)
    (hsize : lenOfImageTail ≤ image.length) (h : FirstKeyWord keyArray image l) :
    findKeyWord (fun a => image[a]?) (image.length - lenOfImageTail) lenOfImageTail keyArray =
      some (some l) ∧ l + keyArray.length ≤ lenOfImageTail := by
  have hlen : l + keyArray.length ≤ lenOfImageTail := by
    have hlen := h.1.length_le
    unfold tailFrom at hlen
    rw [List.length_drop] at hlen
    omega
  refine ⟨?_, hlen⟩
  have hpass : ∀ k < l, ¬keyArray <+: image.drop (image.length - lenOfImageTail + (0 + k)) ∧
      ¬image.drop (image.length - lenOfImageTail + (0 + k)) <+: keyArray := by
    intro k hk
    rw [Nat.zero_add]
    refine ⟨h.2 k hk, fun hstart => ?_⟩
    have := hstart.length_le
    rw [List.length_drop] at this
    omega
  unfold findKeyWord
  rw [if_pos ⟨hpos, hle⟩, show lenOfImageTail = l + (lenOfImageTail - l) by omega,
    show image.length - (l + (lenOfImageTail - l)) = image.length - lenOfImageTail by omega,
    findFrom_eq image hpass, show lenOfImageTail - l = lenOfImageTail - l - 1 + 1 by omega,
    findFrom, Nat.zero_add, compareAt_eq, if_pos (show keyArray <+: image.drop _ from h.1)]
  rfl

/-- Nothing is found. -/
theorem findKeyWord_eq_none (hpos : 0 < keyArray.length) (hle : keyArray.length ≤ lenOfImageTail)
    (hkey : ∀ i, ¬keyArray <+: tailFrom image i)
    (himage : ∀ i < lenOfImageTail, ¬tailFrom image i <+: keyArray) :
    findKeyWord (fun a => image[a]?) (image.length - lenOfImageTail) lenOfImageTail keyArray =
      some none := by
  unfold findKeyWord
  rw [if_pos ⟨hpos, hle⟩]
  refine (findFrom_eq image (n := lenOfImageTail) (i := 0) (fun k hk => ?_) 0).trans rfl
  rw [Nat.zero_add]
  exact ⟨hkey k, himage k hk⟩

/-- The image ends with the begin of a key word, and more is read than the image has. -/
theorem findKeyWord_outside (hpos : 0 < keyArray.length) (hle : keyArray.length ≤ lenOfImageTail)
    (hkey : ∀ i, ¬keyArray <+: tailFrom image i)
    (himage : ∃ i, i < lenOfImageTail ∧ tailFrom image i <+: keyArray) :
    findKeyWord (fun a => image[a]?) (image.length - lenOfImageTail) lenOfImageTail keyArray =
      none := by
  classical
  obtain ⟨hlt, hstart⟩ := Nat.find_spec himage
  have hpass : ∀ k < Nat.find himage,
      ¬keyArray <+: image.drop (image.length - lenOfImageTail + (0 + k)) ∧
        ¬image.drop (image.length - lenOfImageTail + (0 + k)) <+: keyArray := by
    intro k hk
    rw [Nat.zero_add]
    exact ⟨hkey k, fun hk' => Nat.find_min himage hk ⟨by omega, hk'⟩⟩
  unfold findKeyWord
  rw [if_pos ⟨hpos, hle⟩]
  have hfind := findFrom_eq image hpass (lenOfImageTail - Nat.find himage)
  rw [Nat.zero_add, show lenOfImageTail - Nat.find himage =
    lenOfImageTail - Nat.find himage - 1 + 1 by omega, findFrom, compareAt_eq,
    if_neg (show ¬keyArray <+: image.drop _ from hkey _),
    if_pos (show image.drop _ <+: keyArray from hstart)] at hfind
  rwa [show Nat.find himage + (lenOfImageTail - Nat.find himage - 1 + 1) = lenOfImageTail by omega]
    at hfind

end Reads

/-! ### The check -/

section Check

variable {image : List UInt8} {l l' : Nat}

theorem sanityCrc32_congr {s s' : Nat → UInt8} (h : ∀ i < 8, s i = s' i) :
    sanityCrc32 s = sanityCrc32 s' := by
  refine eq_iff_crcDigit.2 fun j hj => ?_
  rw [crcDigit_sanityCrc32 s hj, crcDigit_sanityCrc32 s' hj, h j hj]
  by_cases hj' : j + 1 < 8
  · rw [h (j + 1) hj']
  · simp [hj']

/-- With a key word the digits behind it are compared, if they are inside of the image. -/
theorem imageSanityCheck_of_first (hsize : lenOfImageTail ≤ image.length)
    (h : FirstKeyWord imageSanityKeyWord image l) :
    imageSanityCheck (fun a => image[a]?) image.length =
      if l + imageSanityKeyWord.length + 8 ≤ lenOfImageTail then
        some (decide (sanityCrc32 (crcChar image l) = crcBefore image l))
      else none := by
  obtain ⟨hfind, hlen⟩ := findKeyWord_of_first (by decide) (by decide) hsize h
  have hoff : l + image.length - lenOfImageTail + imageSanityKeyWord.length =
      image.length - lenOfImageTail + (l + imageSanityKeyWord.length) := by omega
  have hkey : imageSanityKeyWord.length = 17 := rfl
  unfold lenOfImageTail at *
  unfold imageSanityCheck lenOfImageTail
  rw [hfind]
  dsimp only [Option.bind_eq_bind, Option.bind_some]
  rw [hoff, readBytes_eq, readBytes_eq]
  by_cases hin : l + imageSanityKeyWord.length + 8 ≤ 512
  · rw [if_pos (.inl (by omega)), if_pos (.inl (by omega)), if_pos hin]
    have hdigits : sanityCrc32 (fun i => ((image.drop (image.length - 512 +
        (l + imageSanityKeyWord.length))).take 8).getD i 0) = sanityCrc32 (crcChar image l) := by
      refine sanityCrc32_congr fun i hi => ?_
      unfold crcChar tailFrom lenOfImageTail
      rw [List.getD_eq_getElem?_getD, List.getD_eq_getElem?_getD, List.getElem?_take_of_lt hi]
    dsimp only [Option.bind_some]
    rw [hdigits]
    rfl
  · rw [if_neg (by omega), if_neg hin]
    rfl

/-- What the digits are put together to is the checksum if no place is at odds with it. -/
theorem sanityCrc32_eq_iff :
    sanityCrc32 (crcChar image l) = crcBefore image l ↔ ¬Unfit image l := by
  rw [eq_iff_crcDigit]
  constructor
  · rintro h ⟨j, hj, hne⟩
    exact hne ((h j hj).symm.trans (crcDigit_sanityCrc32 _ hj))
  · intro h j hj
    by_contra hne
    rw [crcDigit_sanityCrc32 _ hj] at hne
    exact h ⟨j, hj, Ne.symm hne⟩

theorem FirstKeyWord.unique {keyArray : List UInt8} (h : FirstKeyWord keyArray image l)
    (h' : FirstKeyWord keyArray image l') : l = l' := by
  obtain hlt | heq | hgt := Nat.lt_trichotomy l l'
  · exact absurd h.1 (h'.2 l hlt)
  · exact heq
  · exact absurd h'.1 (h.2 l' hgt)

/-- A key word that is in the tail has a first place there. -/
theorem exists_firstKeyWord {keyArray : List UInt8} (h : ∃ l, keyArray <+: tailFrom image l) :
    ∃ l, FirstKeyWord keyArray image l := by
  classical
  exact ⟨Nat.find h, Nat.find_spec h, fun i hi => Nat.find_min h hi⟩

theorem carriesChecksum_iff (h : FirstKeyWord imageSanityKeyWord image l) :
    CarriesChecksum image ↔ l + imageSanityKeyWord.length + 8 ≤ lenOfImageTail ∧
      (∀ j < 8, IsHexDigit (crcChar image l j)) ∧ ¬Unfit image l := by
  constructor
  · rintro ⟨l', h', hin, hdigits⟩
    obtain rfl := h.unique h'
    refine ⟨hin, fun j hj => (hdigits j hj).1, ?_⟩
    rintro ⟨j, hj, hne⟩
    rw [if_pos ⟨(hdigits j hj).1, fun hj' => (hdigits (j + 1) hj').1⟩] at hne
    exact hne (hdigits j hj).2.symm
  · rintro ⟨hin, hhex, hfit⟩
    refine ⟨l, h, hin, fun j hj => ⟨hhex j hj, ?_⟩⟩
    by_contra hne
    refine hfit ⟨j, hj, ?_⟩
    rw [if_pos ⟨hhex j hj, fun hj' => hhex (j + 1) hj'⟩]
    exact Ne.symm hne

/-- An image with a key word. -/
theorem checksExactly_of_first (hsize : lenOfImageTail ≤ image.length)
    (h : FirstKeyWord imageSanityKeyWord image l) :
    ChecksExactly image ↔ l + imageSanityKeyWord.length + 8 ≤ lenOfImageTail ∧
      ((∀ j < 8, IsHexDigit (crcChar image l j)) ∨ Unfit image l) := by
  unfold ChecksExactly
  rw [imageSanityCheck_of_first hsize h]
  by_cases hin : l + imageSanityKeyWord.length + 8 ≤ lenOfImageTail
  · rw [if_pos hin]
    constructor
    · rintro ⟨b, hb, hiff⟩
      refine ⟨hin, or_iff_not_imp_right.2 fun hfit => ?_⟩
      rw [← Option.some.inj hb, decide_eq_true_iff, sanityCrc32_eq_iff] at hiff
      exact ((carriesChecksum_iff h).1 (hiff.1 hfit)).2.1
    · rintro ⟨-, hok⟩
      refine ⟨_, rfl, ?_⟩
      rw [decide_eq_true_iff, sanityCrc32_eq_iff, carriesChecksum_iff h]
      exact ⟨fun hfit => ⟨hin, hok.resolve_right hfit, hfit⟩, fun hcarries => hcarries.2.2⟩
  · rw [if_neg hin]
    constructor
    · rintro ⟨b, hb, -⟩
      cases hb
    · rintro ⟨hin', -⟩
      exact absurd hin' hin

/-- An image without a key word. -/
theorem checksExactly_of_none (hkey : ∀ l, ¬imageSanityKeyWord <+: tailFrom image l)
    (hold : ∀ l, ¬oldImageSanityKeyWord <+: tailFrom image l) :
    ChecksExactly image ↔ ∀ i < lenOfImageTail, ¬tailFrom image i <+: imageSanityKeyWord := by
  have hcarries : ¬CarriesChecksum image := fun ⟨l, h, _⟩ => hkey l h.1
  unfold ChecksExactly
  constructor
  · rintro ⟨b, hb, -⟩ i hi hstart
    unfold imageSanityCheck at hb
    rw [findKeyWord_outside (by decide) (by decide) hkey ⟨i, hi, hstart⟩] at hb
    cases hb
  · intro hend
    refine ⟨false, ?_, by simp [hcarries]⟩
    -- the old key word is the begin of the new one
    have hend' : ∀ i < lenOfImageTail, ¬tailFrom image i <+: oldImageSanityKeyWord :=
      fun i hi hstart => hend i hi (hstart.trans (List.prefix_append _ _))
    unfold imageSanityCheck
    rw [findKeyWord_eq_none (by decide) (by decide) hkey hend, Option.bind_eq_bind,
      Option.bind_some, findKeyWord_eq_none (by decide) (by decide) hold hend']
    rfl

/-- The images that are checked exactly. -/
theorem checksExactly_iff (hsize : lenOfImageTail ≤ image.length) (hold : ¬OldForm image) :
    ChecksExactly image ↔ Checkable image := by
  by_cases hkey : ∃ l, imageSanityKeyWord <+: tailFrom image l
  · obtain ⟨l, h⟩ := exists_firstKeyWord hkey
    rw [checksExactly_of_first hsize h]
    constructor
    · refine fun hok => ⟨fun l' h' => ?_, fun hnone => absurd h.1 (hnone l)⟩
      rwa [← h.unique h']
    · exact fun hok => hok.1 l h
  · have hnone : ∀ l, ¬imageSanityKeyWord <+: tailFrom image l := not_exists.1 hkey
    rw [checksExactly_of_none hnone fun l hl => hold ⟨hnone, l, hl⟩]
    exact ⟨fun hend => ⟨fun l h => absurd h.1 (hnone l), fun _ => hend⟩,
      fun hok => hok.2 hnone⟩

/-! ### Three images -/

/-- An image that begins with the key word and its checksum EAF65A0F. -/
def signedImage : List UInt8 :=
  imageSanityKeyWord ++ [0x65, 0x61, 0x66, 0x36, 0x35, 0x61, 0x30, 0x66] ++ List.replicate 487 0

/-- An image whose last byte is the first letter of the key word. -/
def cutImage : List UInt8 := List.replicate 511 0 ++ [0x43]

/-- An image with the checksum F6166A2E, where a letter that is no digit stands for the F. -/
def letterImage : List UInt8 :=
  33 :: imageSanityKeyWord ++ [0x67, 0x36, 0x31, 0x36, 0x36, 0x61, 0x32, 0x65] ++
    List.replicate 486 0

/-- What the three images are. -/
theorem images_evaluated :
    FirstKeyWord imageSanityKeyWord signedImage 0 ∧
      FirstKeyWord imageSanityKeyWord letterImage 1 ∧
      lenOfImageTail ≤ signedImage.length ∧ lenOfImageTail ≤ cutImage.length ∧
      lenOfImageTail ≤ letterImage.length ∧
      (∀ j < 8, IsHexDigit (crcChar signedImage 0 j)) ∧
      tailFrom cutImage 511 <+: imageSanityKeyWord ∧ ¬IsHexDigit (crcChar letterImage 1 0) ∧
      sanityCrc32 (crcChar letterImage 1) = crcBefore letterImage 1 := by
  refine ⟨⟨?_, ?_⟩, ⟨?_, ?_⟩, ?_, ?_, ?_, ?_, ?_, ?_, ?_⟩
  all_goals decide +kernel

/-- A key word with a byte that is not in the image is nowhere in its tail. -/
theorem not_prefix_of_not_mem {keyArray : List UInt8} {c : UInt8} (hkey : c ∈ keyArray)
    (himage : c ∉ image) (i : Nat) : ¬keyArray <+: tailFrom image i :=
  fun hstart => himage (List.mem_of_mem_drop (hstart.subset hkey))

theorem not_mem_cutImage : (0x52 : UInt8) ∉ cutImage := by
  intro hmem
  rcases List.mem_append.1 hmem with hmem | hmem
  · exact absurd (List.eq_of_mem_replicate hmem) (by decide)
  · exact absurd (List.mem_singleton.1 hmem) (by decide)

theorem checksExactly_signedImage : lenOfImageTail ≤ signedImage.length ∧ ¬OldForm signedImage ∧
    ChecksExactly signedImage := by
  obtain ⟨hfirst, -, hsize, -, -, hdigits, -, -, -⟩ := images_evaluated
  have hold : ¬OldForm signedImage := fun h => h.1 0 hfirst.1
  have hok : Checkable signedImage := by
    refine ⟨fun l h => ?_, fun hnone => absurd hfirst.1 (hnone 0)⟩
    obtain rfl := hfirst.unique h
    exact ⟨by decide, .inl hdigits⟩
  exact ⟨hsize, hold, (checksExactly_iff hsize hold).2 hok⟩

/-- With the one image the search goes on behind the end, the other one is accepted although one of
the eight characters is no hexadecimal digit. -/
theorem not_checksExactly :
    (lenOfImageTail ≤ cutImage.length ∧ ¬OldForm cutImage ∧ ¬ChecksExactly cutImage) ∧
      lenOfImageTail ≤ letterImage.length ∧ ¬OldForm letterImage ∧ ¬ChecksExactly letterImage := by
  obtain ⟨-, hfirst, -, hcut, hletter, -, hend, hnohex, hcrc⟩ := images_evaluated
  refine ⟨⟨hcut, ?_, ?_⟩, hletter, ?_, ?_⟩
  · rintro ⟨-, l, hl⟩
    exact not_prefix_of_not_mem (by decide) not_mem_cutImage l hl
  · intro hexact
    have hkey : ∀ l, ¬imageSanityKeyWord <+: tailFrom cutImage l :=
      not_prefix_of_not_mem (by decide) not_mem_cutImage
    have hold : ∀ l, ¬oldImageSanityKeyWord <+: tailFrom cutImage l :=
      not_prefix_of_not_mem (by decide) not_mem_cutImage
    exact (checksExactly_of_none hkey hold).1 hexact 511 (by decide) hend
  · exact fun h => h.1 1 hfirst.1
  · intro hexact
    obtain ⟨-, hhex | hunfit⟩ := (checksExactly_of_first hletter hfirst).1 hexact
    · exact absurd (hhex 0 (by decide)) hnohex
    · exact sanityCrc32_eq_iff.1 hcrc hunfit

end Check

end EarbudFirmware.AiOta
