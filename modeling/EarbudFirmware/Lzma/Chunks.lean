import EarbudFirmware.Lzma.CopyImage

/-!
# The chunks of an image

The loop over the chunks of a source image writes what they decompress to, one piece behind the
other, and changes nothing but the destination area.

## Main definitions

* `CompressedImage` — the chunks and the trailer
* `Layout` — the areas have sectors of their own
* `Copied` — the variables of the loop after some chunks

## Main results

* `rewrite_of_inRange`, `rewrite_of_lt`, `rewrite_of_le` — erasing and writing
* `Copied.writeChunk` — the next chunk
-/

namespace EarbudFirmware.Lzma

open NorMemory (Content Op InRange)
open Ota (sectorSize normalBoot sanityCrcKeyWord sanityCrc)
open InOrder (after)

/-! ### Source images -/

/-- The LZMA data of the chunks, of which the last one may be shorter, and the trailer. -/
structure CompressedImage where
  chunks : List (List UInt8)
  last : List UInt8
  trailer : List UInt8

/-- The length of a chunk. -/
def sizeBytes (n : Nat) : List UInt8 := (leBytes 4 n).reverse

/-- A chunk in the source image. -/
def chunkBytes (z : List UInt8) : List UInt8 := sizeBytes z.length ++ z

namespace CompressedImage

variable (img : CompressedImage) (m : Installer)

/-- The source image without the boot magic. -/
def body : List UInt8 := (img.chunks ++ [img.last]).flatMap chunkBytes ++ img.trailer

/-- The decompressed image. -/
def image : List UInt8 := (img.chunks ++ [img.last]).flatMap m.output

end CompressedImage

/-- The bytes of whole sectors. -/
def roundUp (n : Nat) : Nat := (n + sectorSize - 1) / sectorSize * sectorSize

/-- The three areas start with a sector, and have no sector in common. -/
structure Layout (m : Installer) (imageSize length : Nat) : Prop where
  src : m.srcFlashOffset % sectorSize = 0
  dst : m.dstFlashOffset % sectorSize = 0
  boot : m.bootInfo % sectorSize = 0
  dst_src : ∀ x, InRange m.dstFlashOffset (roundUp length) x →
    ¬InRange m.srcFlashOffset (roundUp imageSize) x
  dst_boot : ∀ x, InRange m.dstFlashOffset (roundUp length) x → ¬InRange m.bootInfo sectorSize x
  src_boot : ∀ x, InRange m.srcFlashOffset (roundUp imageSize) x → ¬InRange m.bootInfo sectorSize x

variable {m : Installer} {f g : Content} {a n x : Nat} {buf : List UInt8} {c : Copying} {op : Op}

/-! ### Flash operations -/

@[simp] theorem exec_flash : (c.exec op).flash = op.apply c.flash := rfl

@[simp] theorem exec_ops : (c.exec op).ops = c.ops ++ [op] := rfl

/-- An erase changes the sectors that it touches. -/
theorem inRange_of_eraseOp (h : (eraseOp a n).Covers x) :
    a / sectorSize * sectorSize ≤ x ∧ x < roundUp (a + n) := by
  unfold eraseOp at h
  unfold roundUp
  split_ifs at h with hn
  · obtain ⟨hlo, hhi⟩ := h
    omega
  · obtain ⟨hlo, hhi⟩ := h
    omega

theorem covers_eraseOp (h : InRange a n x) : (eraseOp a n).Covers x := by
  obtain ⟨hlo, hhi⟩ := h
  unfold eraseOp
  rw [if_neg (by omega)]
  simp only [sectorSize]
  constructor <;> omega

theorem inRange_of_writeOp (h : (writeOp a buf).Covers x) : InRange a buf.length x := h

/-- Erased bytes that are written. -/
theorem rewrite_of_inRange (h : InRange a buf.length x) (hn : InRange a n x) :
    (writeOp a buf).apply ((eraseOp a n).apply f) x = buf.getD (x - a) 0 := by
  have hwrite : ∀ b, (writeOp a buf).byteAt x b = b &&& buf.getD (x - a) 0 := fun b => if_pos h
  have herase : (eraseOp a n).byteAt x (f x) = 0xFF := by
    have hcovers := covers_eraseOp hn
    unfold eraseOp at hcovers ⊢
    split_ifs at hcovers ⊢
    · exact if_pos hcovers
    · exact if_pos hcovers
  rw [Op.apply_apply, Op.apply_apply, hwrite, herase, NorMemory.erased_and]

/-- The bytes of other sectors stay. -/
theorem rewrite_of_not_covers (hle : buf.length ≤ n) (he : ¬(eraseOp a n).Covers x) :
    (writeOp a buf).apply ((eraseOp a n).apply f) x = f x := by
  have hwrite : ¬(writeOp a buf).Covers x := fun hw =>
    he (covers_eraseOp ⟨hw.1, Nat.lt_of_lt_of_le hw.2 (Nat.add_le_add_left hle a)⟩)
  rw [Op.apply_apply, Op.byteAt_of_not_covers hwrite, Op.apply_apply, Op.byteAt_of_not_covers he]

/-! ### Reading the source -/

theorem length_readFlash : (readFlash f a n).length = n := by
  rw [readFlash, List.length_map, List.length_range]

theorem getElem?_readFlash {i : Nat} (hi : i < n) : (readFlash f a n)[i]? = some (f (a + i)) := by
  rw [readFlash, List.getElem?_map, List.getElem?_range hi]
  rfl

theorem readFlash_congr (h : ∀ x, InRange a n x → f x = g x) : readFlash f a n = readFlash g a n :=
  List.map_congr_left fun i hi => h (a + i) ⟨by omega, by
    have := List.mem_range.1 hi
    omega⟩

/-- A part of what is read. -/
theorem readFlash_part {k l : Nat} (h : k + l ≤ n) :
    readFlash f (a + k) l = ((readFlash f a n).drop k).take l := by
  refine List.ext_getElem? fun i => ?_
  by_cases hi : i < l
  · rw [getElem?_readFlash hi, List.getElem?_take_of_lt hi, List.getElem?_drop,
      getElem?_readFlash (by omega), Nat.add_assoc]
  · rw [List.getElem?_eq_none (by rw [length_readFlash]; omega),
      List.getElem?_eq_none (by rw [List.length_take]; omega)]

variable {info : FlashOtaBootInfo} {bytes pre mid post : List UInt8}

/-- Reading a part of the source image. -/
theorem srcRead_part {off k : Nat}
    (hsource : readFlash f m.srcFlashOffset info.imageSize = pre ++ (mid ++ post))
    (hoff : off = pre.length) (hk : k = mid.length) : m.srcRead info f off k = some mid := by
  have hlen := congrArg List.length hsource
  rw [length_readFlash, List.length_append, List.length_append] at hlen
  have hle : off + k ≤ info.imageSize := by omega
  rw [Installer.srcRead, if_pos hle, readFlash_part hle, hsource, hoff, List.drop_left, hk,
    List.take_left]

/-! ### The loop -/

/-- What the chunks decompress to. -/
def outputs (m : Installer) (zs : List (List UInt8)) : List UInt8 := zs.flatMap m.output

/-- The chunks `zs` of the source in `f` have been copied. Only the sectors of the first `length`
bytes of the destination area are touched. -/
structure Copied (m : Installer) (f : Content) (length : Nat) (zs : List (List UInt8))
    (c : Copying) : Prop where
  readOffset : c.readOffset = 4 + (zs.flatMap chunkBytes).length
  wrtieOffset : c.wrtieOffset = (outputs m zs).length
  crcValue : c.crcValue = crc32C 0 (List.replicate 4 0xFF ++ zs.flatMap chunkBytes)
  bakupHdr : zs ≠ [] → c.bakupHdr = some ((outputs m zs).take sizeofBootHdr)
  flash : c.flash = after Op.apply c.ops f
  inDst : ∀ op ∈ c.ops, ∀ x, op.Covers x → InRange m.dstFlashOffset (roundUp length) x
  written : ∀ i < (outputs m zs).length, c.flash (m.dstFlashOffset + i) = (outputs m zs).getD i 0

variable {zs : List (List UInt8)} {z : List UInt8} {length : Nat}

theorem after_of_not_covers {ops : List Op} (h : ∀ op ∈ ops, ¬op.Covers x) :
    after Op.apply ops f x = f x := by
  induction ops generalizing f with
  | nil => rfl
  | cons op ops ih =>
    rw [InOrder.after_cons, ih fun o ho => h o (List.mem_cons_of_mem _ ho), Op.apply_apply,
      Op.byteAt_of_not_covers (h op List.mem_cons_self)]

/-- What is not in the destination area is not touched. -/
theorem Copied.flash_eq (h : Copied m f length zs c)
    (hx : ¬InRange m.dstFlashOffset (roundUp length) x) : c.flash x = f x := by
  rw [h.flash]
  exact after_of_not_covers fun op hop hcovers => hx (h.inDst op hop x hcovers)

theorem outputs_append {ys : List (List UInt8)} :
    outputs m (zs ++ ys) = outputs m zs ++ outputs m ys := List.flatMap_append

theorem outputs_singleton : outputs m [z] = m.output z := by
  rw [outputs, List.flatMap_singleton]

/-- The pieces before the last one end with a sector. -/
theorem length_outputs_mod (hfull : ∀ z ∈ zs, (m.output z).length = decompressedSize) :
    (outputs m zs).length % sectorSize = 0 := by
  induction zs with
  | nil => rfl
  | cons z zs ih =>
    have hz := hfull z List.mem_cons_self
    have ih := ih fun z' hz' => hfull z' (List.mem_cons_of_mem z hz')
    rw [outputs, List.flatMap_cons, List.length_append, hz]
    simp only [outputs, sectorSize, decompressedSize] at *
    omega

theorem length_chunkBytes : (chunkBytes z).length = 4 + z.length := by
  rw [chunkBytes, List.length_append, sizeBytes, List.length_reverse, length_leBytes]

theorem flatMap_chunkBytes_concat :
    (zs ++ [z]).flatMap chunkBytes = zs.flatMap chunkBytes ++ chunkBytes z := by
  rw [List.flatMap_append, List.flatMap_singleton]

/-- The header is in the first piece. -/
theorem sizeofBootHdr_le_outputs (hne : zs ≠ [])
    (hfull : ∀ z ∈ zs, (m.output z).length = decompressedSize) :
    sizeofBootHdr ≤ (outputs m zs).length := by
  cases zs with
  | nil => exact absurd rfl hne
  | cons z zs =>
    rw [outputs, List.flatMap_cons, List.length_append, hfull z List.mem_cons_self]
    exact Nat.le_trans (by decide) (Nat.le_add_right _ _)

/-- The next chunk is written behind the others. -/
theorem Copied.writeChunk (h : Copied m f length zs c)
    (hdst : m.dstFlashOffset % sectorSize = 0)
    (hfull : ∀ z ∈ zs, (m.output z).length = decompressedSize)
    (hz : sizeofBootHdr ≤ (outputs m (zs ++ [z])).length)
    (hle : (outputs m (zs ++ [z])).length ≤ length) :
    Copied m f length (zs ++ [z]) (writeChunk m (sizeBytes z.length) z c) := by
  have hmod := length_outputs_mod hfull
  have hout : outputs m (zs ++ [z]) = outputs m zs ++ m.output z := by
    rw [outputs_append, outputs_singleton]
  have hcovers : ∀ x, (eraseOp (m.dstFlashOffset + c.wrtieOffset) (m.output z).length).Covers x →
      m.dstFlashOffset + c.wrtieOffset ≤ x ∧
        InRange m.dstFlashOffset (roundUp length) x := by
    intro x hx
    obtain ⟨hlo, hhi⟩ := inRange_of_eraseOp hx
    rw [hout, List.length_append, ← h.wrtieOffset] at hle
    rw [← h.wrtieOffset] at hmod
    unfold roundUp at hhi
    unfold InRange roundUp
    simp only [sectorSize] at *
    omega
  refine ⟨?_, ?_, ?_, fun _ => ?_, ?_, ?_, ?_⟩
  · rw [flatMap_chunkBytes_concat, List.length_append, length_chunkBytes]
    show c.readOffset + 4 + z.length = _
    rw [h.readOffset]
    omega
  · rw [hout, List.length_append]
    show c.wrtieOffset + (m.output z).length = _
    rw [h.wrtieOffset]
  · rw [flatMap_chunkBytes_concat, ← List.append_assoc, crc32C_append, ← h.crcValue, chunkBytes,
      crc32C_append]
    rfl
  · show (if c.wrtieOffset = 0 then _ else c.bakupHdr) = _
    rw [h.wrtieOffset]
    by_cases hnil : zs = []
    · subst hnil
      rw [outputs_append, outputs_singleton] at hz ⊢
      rw [if_pos (show (outputs m []).length = 0 from rfl)]
      exact congrArg some (List.take_append_of_le_length hz)
    · have hlen := sizeofBootHdr_le_outputs hnil hfull
      rw [if_neg (Nat.ne_of_gt (Nat.lt_of_lt_of_le (by decide) hlen)), h.bakupHdr hnil, hout,
        List.take_append_of_le_length hlen]
  · show (writeOp _ _).apply ((eraseOp _ _).apply c.flash) = after Op.apply (c.ops ++ [_] ++ [_]) f
    rw [InOrder.after_append, InOrder.after_append, ← h.flash]
    rfl
  · intro op hop x hx
    have hop : op ∈ c.ops ++ [eraseOp (m.dstFlashOffset + c.wrtieOffset) (m.output z).length] ++
      [writeOp (m.dstFlashOffset + c.wrtieOffset) (m.output z)] := hop
    rcases List.mem_append.1 hop with hop | hop
    · rcases List.mem_append.1 hop with hop | hop
      · exact h.inDst op hop x hx
      · rw [List.mem_singleton.1 hop] at hx
        exact (hcovers x hx).2
    · rw [List.mem_singleton.1 hop] at hx
      exact (hcovers x (covers_eraseOp hx)).2
  · intro i hi
    show (writeOp (m.dstFlashOffset + c.wrtieOffset) (m.output z)).apply
      ((eraseOp (m.dstFlashOffset + c.wrtieOffset) (m.output z).length).apply c.flash)
      (m.dstFlashOffset + i) = _
    rw [hout, List.length_append] at hi
    rw [hout]
    by_cases hold : i < (outputs m zs).length
    · -- an earlier piece ends with the sector before this one
      rw [rewrite_of_not_covers (Nat.le_refl _) fun hc => ?_, h.written i hold,
        List.getD_append _ _ _ _ hold]
      have := (hcovers _ hc).1
      rw [h.wrtieOffset] at this
      omega
    · have hrange : InRange (m.dstFlashOffset + c.wrtieOffset) (m.output z).length
          (m.dstFlashOffset + i) := by
        rw [h.wrtieOffset]
        exact ⟨by omega, by omega⟩
      rw [rewrite_of_inRange hrange hrange, List.getD_append_right _ _ _ _ (by omega),
        h.wrtieOffset]
      congr 1
      omega

/-- The length of a chunk is read back. -/
theorem be_sizeBytes {k : Nat} (h : k < 0x100000000) : be (sizeBytes k) = k := by
  have hbytes : sizeBytes k = [leByte k 3, leByte k 2, leByte k 1, leByte k 0] := rfl
  have hbyte : ∀ i, (leByte k i).toNat = k / 256 ^ i % 256 := fun i => by simp [leByte]
  rw [hbytes, be]
  simp only [List.foldl_cons, List.foldl_nil, hbyte]
  omega

theorem srcRead_congr {off k : Nat}
    (h : ∀ x, InRange m.srcFlashOffset info.imageSize x → f x = g x) :
    m.srcRead info f off k = m.srcRead info g off k := by
  unfold Installer.srcRead
  split_ifs with hle
  · refine congrArg some (readFlash_congr fun x hx => h x ?_)
    exact ⟨Nat.le_trans (Nat.le_add_right _ _) hx.1, by have := hx.2; omega⟩
  · rfl

theorem le_roundUp (k : Nat) : k ≤ roundUp k := by
  unfold roundUp
  simp only [sectorSize]
  omega

/-- Copying leaves the source as it is. -/
theorem Copied.srcRead_eq (h : Copied m f length zs c) (hl : Layout m info.imageSize length)
    (off k : Nat) : m.srcRead info c.flash off k = m.srcRead info f off k :=
  srcRead_congr fun x hx => h.flash_eq fun hd => hl.dst_src x hd
    ⟨hx.1, Nat.lt_of_lt_of_le hx.2 (Nat.add_le_add_left (le_roundUp _) _)⟩

/-- A round of the loop that stays inside the source. -/
theorem copyChunk_of_reads {mark : List UInt8} (hpool : z.length ≤ m.poolSize)
    (hz : z.length < 0x100000000)
    (hsize : m.srcRead info c.flash c.readOffset 4 = some (sizeBytes z.length))
    (hdata : m.srcRead info c.flash (c.readOffset + 4) z.length = some z)
    (hnext : m.srcRead info (writeChunk m (sizeBytes z.length) z c).flash
      (writeChunk m (sizeBytes z.length) z c).readOffset 16 = some mark) :
    copyChunk m info c =
      if mark.take 15 = crcMark then
        (readSanityCrc (m.output z) (writeChunk m (sizeBytes z.length) z c)).map (·, true)
      else
        let c := writeChunk m (sizeBytes z.length) z c
        some ({ c with crcValueDcom := crc32C c.crcValueDcom (m.output z) }, false) := by
  have hmalloc : m.lzmaMalloc z.length = true := decide_eq_true hpool
  unfold copyChunk
  rw [hsize]
  simp only [Option.bind_eq_bind, Option.bind_some, be_sizeBytes hz, hmalloc, if_true, hdata, hnext]

/-- A round of the loop, with the bytes behind the chunk. -/
theorem copyChunk_eq {mark : List UInt8} (h : Copied m f length zs c)
    (hl : Layout m info.imageSize length)
    (hsource : readFlash f m.srcFlashOffset info.imageSize =
      leBytes 4 normalBoot ++ zs.flatMap chunkBytes ++ (chunkBytes z ++ (mark ++ post)))
    (hmark : mark.length = 16) (hpool : z.length ≤ m.poolSize) (hz : z.length < 0x100000000)
    (hfull : ∀ z ∈ zs, (m.output z).length = decompressedSize)
    (hhdr : sizeofBootHdr ≤ (outputs m (zs ++ [z])).length)
    (hle : (outputs m (zs ++ [z])).length ≤ length) :
    copyChunk m info c =
      if mark.take 15 = crcMark then
        (readSanityCrc (m.output z) (writeChunk m (sizeBytes z.length) z c)).map (·, true)
      else
        let c := writeChunk m (sizeBytes z.length) z c
        some ({ c with crcValueDcom := crc32C c.crcValueDcom (m.output z) }, false) := by
  have hwritten := h.writeChunk hl.dst hfull hhdr hle
  have hoff : c.readOffset = (leBytes 4 normalBoot ++ zs.flatMap chunkBytes).length := by
    rw [h.readOffset, List.length_append, length_leBytes]
  have hbytes : (sizeBytes z.length).length = 4 := rfl
  have hsource₁ : readFlash f m.srcFlashOffset info.imageSize =
      leBytes 4 normalBoot ++ zs.flatMap chunkBytes ++
        (sizeBytes z.length ++ (z ++ (mark ++ post))) := by
    rw [hsource, chunkBytes, List.append_assoc (sizeBytes z.length)]
  have hsource₂ : readFlash f m.srcFlashOffset info.imageSize =
      leBytes 4 normalBoot ++ zs.flatMap chunkBytes ++ sizeBytes z.length ++
        (z ++ (mark ++ post)) := by
    rw [hsource₁, ← List.append_assoc _ (sizeBytes z.length)]
  have hsource₃ : readFlash f m.srcFlashOffset info.imageSize =
      leBytes 4 normalBoot ++ zs.flatMap chunkBytes ++ chunkBytes z ++ (mark ++ post) := by
    rw [hsource, ← List.append_assoc _ (chunkBytes z)]
  have hsize : m.srcRead info c.flash c.readOffset 4 = some (sizeBytes z.length) := by
    rw [h.srcRead_eq hl, srcRead_part hsource₁ hoff hbytes.symm]
  have hdata : m.srcRead info c.flash (c.readOffset + 4) z.length = some z := by
    rw [h.srcRead_eq hl, srcRead_part hsource₂ _ rfl]
    rw [List.length_append, ← hoff, hbytes]
  have hnext : m.srcRead info (writeChunk m (sizeBytes z.length) z c).flash
      (writeChunk m (sizeBytes z.length) z c).readOffset 16 = some mark := by
    rw [hwritten.srcRead_eq hl, srcRead_part hsource₃ _ hmark.symm]
    rw [List.length_append, ← hoff, length_chunkBytes, ← Nat.add_assoc]
    rfl
  exact copyChunk_of_reads hpool hz hsize hdata hnext

end EarbudFirmware.Lzma
