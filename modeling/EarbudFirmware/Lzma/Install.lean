import EarbudFirmware.Lzma.Chunks

/-!
# A source image is installed

The chunks of a source image are copied, and the image gets its boot magic before the boot info
does. This takes that the key word of the image lies within the last chunk.

## Main definitions

* `IsSource` — the source area and the boot info hold a compressed image
* `Installable` — the areas, the pool and the place of the key word
* `InstallsWith` — the flash operations install the image before they touch the boot info

## Main results

* `copyLoop_chunks` — the loop copies all chunks
* `exists_installsWith` — a source image is installed
-/

namespace EarbudFirmware.Lzma

open NorMemory (Content Op InRange)
open Ota (sectorSize normalBoot sanityCrcKeyWord sanityCrc asciiToHex)
open InOrder (after)

variable {m : Installer} {f g : Content} {c : Copying} {info : FlashOtaBootInfo} {length : Nat}
  {zs ys : List (List UInt8)} {z last trailer t : List UInt8}

/-! ### The loop -/

/-- A chunk is not taken for the trailer. -/
theorem take_chunkBytes_ne (hz : z.length < 0x40000000) :
    ((chunkBytes z ++ t).take 16).take 15 ≠ crcMark := by
  intro heq
  have hsize := congrArg (fun l : List UInt8 => be (l.take 4)) heq
  have hbytes : (sizeBytes z.length).length = 4 := rfl
  have htake : (((chunkBytes z ++ t).take 16).take 15).take 4 = sizeBytes z.length := by
    rw [List.take_take, List.take_take, chunkBytes, List.append_assoc]
    exact List.take_left' hbytes
  rw [htake, be_sizeBytes (by omega)] at hsize
  have hmark : be (crcMark.take 4) = 0x43524333 := by decide
  omega

/-- The loop copies all chunks of a source image, and looks for the key word in the last one. -/
theorem copyLoop_chunks (h : Copied m f length zs c) (hl : Layout m info.imageSize length)
    (hsource : readFlash f m.srcFlashOffset info.imageSize =
      leBytes 4 normalBoot ++ zs.flatMap chunkBytes ++
        ((ys ++ [last]).flatMap chunkBytes ++ trailer))
    (htrailer : 16 ≤ trailer.length) (hmark : trailer.take 15 = crcMark)
    (hpool : ∀ z ∈ ys ++ [last], z.length ≤ m.poolSize)
    (hfull : ∀ z ∈ zs ++ ys, (m.output z).length = decompressedSize)
    (hhdr : sizeofBootHdr ≤ (outputs m (zs ++ ys ++ [last])).length)
    (hle : (outputs m (zs ++ ys ++ [last])).length ≤ length)
    (hdcom : c.crcValueDcom = crc32C 0 (outputs m zs)) {fuel : Nat} (hfuel : ys.length < fuel) :
    ∃ c', Copied m f length (zs ++ ys ++ [last]) c' ∧
      c'.crcValueDcom = crc32C 0 (outputs m (zs ++ ys)) ∧
      copyLoop m info fuel c = readSanityCrc (m.output last) c' := by
  -- the source is longer than what has been read, so there is another round
  have hround : c.readOffset < info.imageSize := by
    have hlen := congrArg List.length hsource
    rw [length_readFlash, List.length_append, List.length_append, List.length_append,
      length_leBytes] at hlen
    rw [h.readOffset]
    omega
  induction ys generalizing zs c fuel with
  | nil =>
    cases fuel with
    | zero => exact absurd hfuel (Nat.not_lt_zero _)
    | succ fuel =>
      have hlast := hpool last List.mem_cons_self
      have hlt := m.poolSize_lt
      rw [List.append_nil] at hfull hhdr hle ⊢
      have hsource' : readFlash f m.srcFlashOffset info.imageSize =
          leBytes 4 normalBoot ++ zs.flatMap chunkBytes ++
            (chunkBytes last ++ (trailer.take 16 ++ trailer.drop 16)) := by
        rw [hsource, List.nil_append, List.flatMap_singleton, List.take_append_drop]
      have hstep := copyChunk_eq h hl hsource' (by rw [List.length_take]; omega) hlast (by omega)
        hfull hhdr hle
      rw [List.take_take, if_pos (by exact hmark)] at hstep
      refine ⟨_, h.writeChunk hl.dst hfull hhdr hle, hdcom, ?_⟩
      rw [copyLoop, if_pos hround, hstep]
      cases readSanityCrc (m.output last) (writeChunk m (sizeBytes last.length) last c) with
      | none => rfl
      | some c' => rfl
  | cons y ys ih =>
    cases fuel with
    | zero => exact absurd hfuel (Nat.not_lt_zero _)
    | succ fuel =>
      have hy := hpool y List.mem_cons_self
      have hlt := m.poolSize_lt
      have hfull' : ∀ z ∈ zs ++ [y] ++ ys, (m.output z).length = decompressedSize := by
        rw [List.append_assoc]
        exact hfull
      have hall : zs ++ [y] ++ ys ++ [last] = zs ++ (y :: ys) ++ [last] := by
        rw [List.append_assoc zs [y] ys, List.singleton_append]
      have hzs : ∀ z ∈ zs, (m.output z).length = decompressedSize := fun z hz =>
        hfull z (List.mem_append_left _ hz)
      have hzsy : ∀ z ∈ zs ++ [y], (m.output z).length = decompressedSize := fun z hz =>
        hfull' z (List.mem_append_left _ hz)
      have hhdr' := sizeofBootHdr_le_outputs (List.append_ne_nil_of_right_ne_nil zs
        (List.cons_ne_nil y [])) hzsy
      have hle' : (outputs m (zs ++ [y])).length ≤ length := by
        rw [← hall, outputs_append, outputs_append, List.length_append, List.length_append] at hle
        omega
      -- what follows starts with the length of a chunk
      obtain ⟨w, ws, hws⟩ : ∃ w ws, ys ++ [last] = w :: ws :=
        List.exists_cons_of_ne_nil
          (List.append_ne_nil_of_right_ne_nil ys (List.cons_ne_nil last []))
      have hw := hpool w (List.mem_cons_of_mem y (by
        show w ∈ ys ++ [last]
        rw [hws]
        exact List.mem_cons_self))
      have hne : (((ys ++ [last]).flatMap chunkBytes ++ trailer).take 16).take 15 ≠ crcMark := by
        rw [hws, List.flatMap_cons, List.append_assoc]
        exact take_chunkBytes_ne (by omega)
      have hsource' : readFlash f m.srcFlashOffset info.imageSize =
          leBytes 4 normalBoot ++ zs.flatMap chunkBytes ++ (chunkBytes y ++
            (((ys ++ [last]).flatMap chunkBytes ++ trailer).take 16 ++
              ((ys ++ [last]).flatMap chunkBytes ++ trailer).drop 16)) := by
        rw [hsource, List.cons_append, List.flatMap_cons, List.take_append_drop,
          List.append_assoc (chunkBytes y)]
      have hstep := copyChunk_eq h hl hsource'
        (by rw [List.length_take, List.length_append]; omega) hy (by omega) hzs hhdr' hle'
      rw [if_neg hne] at hstep
      have hwritten := h.writeChunk hl.dst hzs hhdr' hle'
      have hround' : c.readOffset + 4 + y.length < info.imageSize := by
        have hlen := congrArg List.length hsource'
        rw [length_readFlash, List.length_append, List.length_append, List.length_append,
          List.take_append_drop, List.length_append, length_leBytes, length_chunkBytes] at hlen
        rw [h.readOffset]
        omega
      obtain ⟨c', hc', hdcom', hloop⟩ := ih (c := { writeChunk m (sizeBytes y.length) y c with
          crcValueDcom := crc32C c.crcValueDcom (m.output y) })
        ⟨hwritten.readOffset, hwritten.wrtieOffset, hwritten.crcValue, hwritten.bakupHdr,
          hwritten.flash, hwritten.inDst, hwritten.written⟩
        (by simp only [hsource, List.flatMap_append, List.cons_append, List.flatMap_cons,
          List.flatMap_nil, List.append_nil, List.append_assoc])
        (fun z hz => hpool z (List.mem_cons_of_mem y hz)) hfull' (by rw [hall]; exact hhdr)
        (by rw [hall]; exact hle)
        (by rw [outputs_append, outputs_singleton, crc32C_append, ← hdcom])
        (Nat.lt_of_succ_lt_succ hfuel) hround'
      rw [hall] at hc'
      rw [List.append_assoc, List.singleton_append] at hdcom'
      refine ⟨c', hc', hdcom', ?_⟩
      rw [copyLoop, if_pos hround, hstep]
      exact hloop

/-! ### The key word -/

/-- The inner loop finds the key word, or ends at another byte, or reads behind the array when this
ends within the key word. -/
theorem compareAt_eq (l k : List UInt8) :
    compareAt l k = if k <+: l then some true else if l <+: k then none else some false := by
  induction k generalizing l with
  | nil => rw [compareAt, if_pos (List.nil_prefix)]
  | cons b k ih =>
    cases l with
    | nil => rw [compareAt, if_neg (by simp), if_pos List.nil_prefix]
    | cons a l =>
      simp only [compareAt, List.cons_prefix_cons]
      by_cases hab : a = b
      · subst hab
        simp only [true_and, ne_eq, not_true, if_false]
        exact ih l
      · rw [if_pos hab, if_neg fun h => hab h.1.symm, if_neg fun h => hab h.1]

/-- The key word is found where it occurs first. -/
theorem findFrom_eq {a k l : List UInt8} (hk : k ≠ []) {i : Nat} (hfirst : ∀ j < a.length,
    ¬k <+: (a ++ (k ++ l)).drop j) : findFrom k (a ++ (k ++ l)) i = some (some (i + a.length)) := by
  induction a generalizing i with
  | nil =>
    cases k with
    | nil => exact absurd rfl hk
    | cons b k =>
      rw [List.nil_append, List.cons_append, findFrom, ← List.cons_append, compareAt_eq,
        if_pos (List.prefix_append _ _)]
      rfl
  | cons x a ih =>
    have hhead : ¬k <+: x :: (a ++ (k ++ l)) := hfirst 0 (Nat.succ_pos _)
    -- the array does not end here, as the key word comes later
    have hlong : ¬x :: (a ++ (k ++ l)) <+: k := fun h => by
      have := h.length_le
      simp only [List.length_cons, List.length_append] at this
      omega
    rw [List.cons_append, findFrom, compareAt_eq, if_neg hhead, if_neg hlong]
    simp only
    rw [ih fun j hj => hfirst (j + 1) (Nat.succ_lt_succ hj), List.length_cons]
    congr 2
    omega

theorem findFrom_eq_none {k l : List UInt8} {i : Nat}
    (h : ∀ j < l.length, ¬k <+: l.drop j ∧ ¬l.drop j <+: k) : findFrom k l i = some none := by
  induction l generalizing i with
  | nil => rfl
  | cons x l ih =>
    have hhead : ¬k <+: x :: l ∧ ¬x :: l <+: k := h 0 (Nat.succ_pos _)
    rw [findFrom, compareAt_eq, if_neg hhead.1, if_neg hhead.2]
    exact ih fun j hj => h (j + 1) (Nat.succ_lt_succ hj)

/-- The key word occurs first behind `a`. -/
structure OccursFirst (out a b : List UInt8) : Prop where
  eq : out = a ++ (sanityCrcKeyWord ++ b)
  first : ∀ j < a.length, ¬sanityCrcKeyWord <+: out.drop j

theorem OccursFirst.findKeyWord_eq {out a b : List UInt8} (h : OccursFirst out a b) :
    findKeyWord out sanityCrcKeyWord = some (some a.length) := by
  have hlen : sanityCrcKeyWord.length ≤ out.length := by
    rw [h.eq, List.length_append, List.length_append]
    omega
  have hne : sanityCrcKeyWord ≠ [] := by decide
  have hfind := findFrom_eq (i := 0) hne (by rw [← h.eq]; exact h.first)
  rw [findKeyWord, if_pos ⟨by decide, hlen⟩, h.eq, hfind, Nat.zero_add]

/-- The digits and the checksum that are taken of the last output. -/
theorem OccursFirst.readSanityCrc_eq {out a b : List UInt8} (h : OccursFirst out a b)
    (hb : 8 ≤ b.length) :
    readSanityCrc out c = some { c with
      sanityCrc32 := sanityCrc fun i => b.getD i 0
      crcValueDcom := crc32C c.crcValueDcom (a ++ sanityCrcKeyWord) } := by
  have hstart : digitsStart (some a.length) = (a ++ sanityCrcKeyWord).length := by
    rw [List.length_append]
    rfl
  have hout : out = (a ++ sanityCrcKeyWord) ++ b := by rw [h.eq, List.append_assoc]
  have hle : (a ++ sanityCrcKeyWord).length + 8 ≤ out.length := by
    have hlen : out.length = (a ++ sanityCrcKeyWord).length + b.length := by
      rw [hout]
      exact List.length_append
    omega
  have hdigits : (fun i => out.getD ((a ++ sanityCrcKeyWord).length + i) 0) =
      fun i => b.getD i 0 := by
    funext i
    rw [hout, List.getD_append_right _ _ _ _ (Nat.le_add_right _ _), Nat.add_sub_cancel_left]
  rw [readSanityCrc, h.findKeyWord_eq]
  simp only [Option.bind_eq_bind, Option.bind_some, hstart, if_pos hle, hdigits]
  rw [hout, List.take_left]

/-! ### The end of the copy -/

/-- The first sector of the destination area, with the boot magic in the header. -/
def headerSector (m : Installer) (image : List UInt8) (f : Content) : List UInt8 :=
  leBytes 4 normalBoot ++ (image.take sizeofBootHdr).drop 4 ++
    (readFlash f m.dstFlashOffset sectorSize).drop sizeofBootHdr

theorem length_headerSector {image : List UInt8} (h : sizeofBootHdr ≤ image.length) :
    (headerSector m image f).length = sectorSize := by
  rw [headerSector, List.length_append, List.length_append, length_leBytes, List.length_drop,
    List.length_drop, List.length_take, length_readFlash]
  simp only [sizeofBootHdr, sectorSize] at *
  omega

/-- The header has the boot magic, and the rest of the sector stays. -/
theorem getD_headerSector {image : List UInt8} (h : sizeofBootHdr ≤ image.length)
    (hf : ∀ i < image.length, f (m.dstFlashOffset + i) = image.getD i 0) {i : Nat}
    (hi : i < image.length) (hsector : i < sectorSize) :
    (headerSector m image f).getD i 0 = (leBytes 4 normalBoot ++ image.drop 4).getD i 0 := by
  have hmagic : (leBytes 4 normalBoot).length = 4 := rfl
  have hdrop : ((image.take sizeofBootHdr).drop 4).length = 12 := by
    rw [List.length_drop, List.length_take]
    simp only [sizeofBootHdr] at *
    omega
  have hfront : (leBytes 4 normalBoot ++ (image.take sizeofBootHdr).drop 4).length = 16 := by
    rw [List.length_append, hmagic, hdrop]
  unfold headerSector
  by_cases h4 : i < 4
  · rw [List.append_assoc, List.getD_append _ _ _ _ (by omega), List.getD_append _ _ _ _ (by omega)]
  · have hright : (image.drop 4).getD (i - 4) 0 = image.getD i 0 := by
      have hi₄ : 4 + (i - 4) = i := by omega
      rw [List.getD_eq_getElem?_getD, List.getD_eq_getElem?_getD, List.getElem?_drop, hi₄]
    rw [List.getD_append_right (leBytes 4 normalBoot) (image.drop 4) _ _ (by omega), hmagic, hright]
    by_cases h16 : i < 16
    · have hi₄ : 4 + (i - 4) = i := by omega
      have htake : ((image.take sizeofBootHdr).drop 4).getD (i - 4) 0 = image.getD i 0 := by
        rw [List.getD_eq_getElem?_getD, List.getD_eq_getElem?_getD, List.getElem?_drop, hi₄,
          List.getElem?_take_of_lt (show i < sizeofBootHdr from h16)]
      rw [List.getD_append _ _ _ _ (by omega), List.getD_append_right _ _ _ _ (by omega), hmagic,
        htake]
    · have hi' : sizeofBootHdr + (i - 16) = i := by
        simp only [sizeofBootHdr]
        omega
      rw [List.getD_append_right _ _ _ _ (by omega), hfront, List.getD_eq_getElem?_getD,
        List.getElem?_drop, hi', getElem?_readFlash hsector, hf i hi]
      rfl

/-- The boot magic is put into the header, whatever the checksums are. -/
theorem Copied.setHeader (h : Copied m f length zs c) (hlen : (outputs m zs).length = length)
    (hhdr : sizeofBootHdr ≤ length) (hne : zs ≠ []) (hdst : m.dstFlashOffset % sectorSize = 0)
    (crcValue crcValueDcom sanityCrc32 : UInt32) :
    ∃ c', setHeader m { c with crcValue, crcValueDcom, sanityCrc32 } = some c' ∧
      c'.flash = after Op.apply c'.ops f ∧
      (∀ op ∈ c'.ops, ∀ x, op.Covers x → InRange m.dstFlashOffset (roundUp length) x) ∧
      ∀ i < length, c'.flash (m.dstFlashOffset + i) =
        (leBytes 4 normalBoot ++ (outputs m zs).drop 4).getD i 0 := by
  have hsector := length_headerSector (m := m) (f := c.flash) (by rw [hlen]; exact hhdr)
  have hcovers : ∀ x, (eraseOp m.dstFlashOffset sectorSize).Covers x →
      InRange m.dstFlashOffset (roundUp length) x ∧ x < m.dstFlashOffset + sectorSize := by
    intro x hx
    obtain ⟨hlo, hhi⟩ := inRange_of_eraseOp hx
    unfold roundUp at hhi
    unfold InRange roundUp
    simp only [sectorSize, sizeofBootHdr] at *
    omega
  refine ⟨(({ c with crcValue, crcValueDcom, sanityCrc32 } : Copying).exec
    (eraseOp m.dstFlashOffset sectorSize)).exec
      (writeOp m.dstFlashOffset (headerSector m (outputs m zs) c.flash)),
    by rw [Lzma.setHeader, h.bakupHdr hne]; rfl, ?_, ?_, ?_⟩
  · rw [exec_flash, exec_flash, exec_ops, exec_ops, InOrder.after_append, InOrder.after_append,
      ← h.flash]
    rfl
  · intro op hop x hx
    have hop : op ∈ c.ops ++ [eraseOp m.dstFlashOffset sectorSize] ++
      [writeOp m.dstFlashOffset (headerSector m (outputs m zs) c.flash)] := hop
    rcases List.mem_append.1 hop with hop | hop
    · rcases List.mem_append.1 hop with hop | hop
      · exact h.inDst op hop x hx
      · rw [List.mem_singleton.1 hop] at hx
        exact (hcovers x hx).1
    · rw [List.mem_singleton.1 hop] at hx
      have hx := inRange_of_writeOp hx
      rw [hsector] at hx
      exact (hcovers x (covers_eraseOp hx)).1
  · intro i hi
    show (writeOp m.dstFlashOffset (headerSector m (outputs m zs) c.flash)).apply
      ((eraseOp m.dstFlashOffset sectorSize).apply c.flash) (m.dstFlashOffset + i) = _
    rw [← hlen] at hhdr hi
    by_cases hin : i < sectorSize
    · have hrange : InRange m.dstFlashOffset sectorSize (m.dstFlashOffset + i) :=
        ⟨by omega, by omega⟩
      rw [rewrite_of_inRange (by rw [hsector]; exact hrange) hrange, Nat.add_sub_cancel_left,
        getD_headerSector hhdr h.written hi hin]
    · rw [rewrite_of_not_covers (Nat.le_of_eq hsector) fun hx => ?_, h.written i hi,
        List.getD_append_right _ _ _ _ (by
          rw [length_leBytes]
          simp only [sectorSize] at hin
          omega), length_leBytes, List.getD_eq_getElem?_getD, List.getD_eq_getElem?_getD,
        List.getElem?_drop]
      · congr 2
        simp only [sectorSize] at hin
        omega
      · have := (hcovers _ hx).2
        omega

/-- Erasing the source. -/
def eraseSourceOps (m : Installer) (info : FlashOtaBootInfo) : List Op :=
  (List.range ((info.imageSize + sectorSize - 1) / sectorSize)).map fun k =>
    eraseOp (m.srcFlashOffset + k * sectorSize) sectorSize

theorem foldl_exec (c : Copying) (ks : List Nat) (op : Nat → Op) :
    (ks.foldl (fun c k => c.exec (op k)) c).ops = c.ops ++ ks.map op ∧
      (ks.foldl (fun c k => c.exec (op k)) c).flash = after Op.apply (ks.map op) c.flash := by
  induction ks generalizing c with
  | nil => exact ⟨(List.append_nil _).symm, rfl⟩
  | cons k ks ih =>
    obtain ⟨hops, hflash⟩ := ih (c.exec (op k))
    rw [List.foldl_cons, List.map_cons, hops, hflash]
    exact ⟨List.append_assoc _ _ _, rfl⟩

theorem inRange_of_eraseSourceOps (hsrc : m.srcFlashOffset % sectorSize = 0) {op : Op} {x : Nat}
    (hop : op ∈ eraseSourceOps m info) (hx : op.Covers x) :
    InRange m.srcFlashOffset (roundUp info.imageSize) x := by
  obtain ⟨k, hk, rfl⟩ := List.mem_map.1 hop
  have hk := List.mem_range.1 hk
  obtain ⟨hlo, hhi⟩ := inRange_of_eraseOp hx
  unfold roundUp at hhi
  unfold InRange roundUp
  simp only [sectorSize] at *
  omega

/-! ### Installation -/

/-- The image carries its key word at `k`, followed by the digits of its checksum. -/
def KeyWordAt (image : List UInt8) (k : Nat) : Prop :=
  ∃ digits rest, image.drop k = sanityCrcKeyWord ++ (digits ++ rest) ∧ digits.length = 8 ∧
    (∀ d ∈ digits, asciiToHex d < 16) ∧
    sanityCrc (fun i => digits.getD i 0) =
      crc32C 0 (image.take (k + sanityCrcKeyWord.length))

/-- The source area and the boot info hold the compressed image. -/
structure IsSource (m : Installer) (f : Content) (img : CompressedImage) : Prop where
  valid : ∀ z ∈ img.chunks ++ [img.last], (m.lzmaDecBuf z).1 = 0
  full : ∀ z ∈ img.chunks, (m.output z).length = decompressedSize
  trailer_length : 16 ≤ img.trailer.length
  trailer : img.trailer.take 15 = crcMark
  source : readFlash f m.srcFlashOffset (m.otaBootInfo f).imageSize =
    leBytes 4 normalBoot ++ img.body
  imageCrc : (m.otaBootInfo f).imageCrc = crc32C 0 (List.replicate 4 0xFF ++ img.body)
  keyWord : ∃ k, KeyWordAt (img.image m) k

/-- The areas do not overlap, the pool is large enough, and the key word lies within the output of
the last chunk, where it does not occur before. -/
structure Installable (m : Installer) (f : Content) (img : CompressedImage) : Prop where
  layout : Layout m (m.otaBootInfo f).imageSize (img.image m).length
  chunks_le : ∀ z ∈ img.chunks ++ [img.last], z.length ≤ m.poolSize
  trailer_le : img.trailer.length ≤ m.poolSize
  keyWord : ∃ k, KeyWordAt (img.image m) k ∧ (outputs m img.chunks).length ≤ k ∧
    ∀ j, (outputs m img.chunks).length ≤ j → j < k → ¬sanityCrcKeyWord <+: (img.image m).drop j

/-- The decompressed image with the boot magic is in the destination area. -/
def Installed (m : Installer) (img : CompressedImage) (g : Content) : Prop :=
  ∀ i < (img.image m).length,
    g (m.dstFlashOffset + i) = (leBytes 4 normalBoot ++ (img.image m).drop 4).getD i 0

/-- The operations of `update_magic_number`. -/
def updateOps (m : Installer) : List Op :=
  [eraseOp m.bootInfo sectorSize, writeOp m.bootInfo (leBytes 4 normalBoot)]

/-- The copy from `f` installs the image with the operations `pre`, which leave everything but the
destination area as it is, and only then sets the boot info. -/
def InstallsWith (m : Installer) (img : CompressedImage) (f : Content) (pre : List Op) : Prop :=
  (∀ op ∈ pre, ∀ x, op.Covers x → InRange m.dstFlashOffset (roundUp (img.image m).length) x) ∧
    Installed m img (after Op.apply pre f) ∧
    ∃ c post, otaCopyCompressedImage m f = some (c, true) ∧ c.ops = pre ++ updateOps m ++ post ∧
      c.flash = after Op.apply c.ops f ∧ Installed m img c.flash ∧
      le c.flash m.bootInfo 4 = normalBoot

section Source

variable {img : CompressedImage}

theorem image_eq : img.image m = outputs m img.chunks ++ m.output img.last := by
  rw [CompressedImage.image, ← outputs, outputs_append, outputs_singleton]

/-- The checksum is made of eight digits. -/
theorem sanityCrc_congr {d d' : Nat → UInt8} (h : ∀ i < 8, d i = d' i) :
    sanityCrc d = sanityCrc d' := by
  unfold sanityCrc
  refine List.foldl_ext _ _ _ fun crc i hi => ?_
  rw [h i (List.mem_range.1 hi)]

/-- The key word in the last output, and what stands before it. -/
theorem exists_occursFirst {k : Nat} (hk : KeyWordAt (img.image m) k)
    (hle : (outputs m img.chunks).length ≤ k)
    (hfirst : ∀ j, (outputs m img.chunks).length ≤ j → j < k →
      ¬sanityCrcKeyWord <+: (img.image m).drop j) :
    ∃ a b, OccursFirst (m.output img.last) a b ∧ 8 ≤ b.length ∧
      sanityCrc (fun i => b.getD i 0) =
        crc32C 0 (outputs m img.chunks ++ (a ++ sanityCrcKeyWord)) := by
  obtain ⟨digits, rest, hdrop, hdigits, -, hcrc⟩ := hk
  obtain ⟨i, rfl⟩ := Nat.exists_eq_add_of_le hle
  have hdropped : ∀ j, (img.image m).drop ((outputs m img.chunks).length + j) =
      (m.output img.last).drop j := by
    intro j
    rw [image_eq, ← List.drop_drop, List.drop_left]
  rw [hdropped] at hdrop
  have hi : i ≤ (m.output img.last).length := by
    have hlen := congrArg List.length hdrop
    rw [List.length_drop, List.length_append] at hlen
    have hpos : 0 < sanityCrcKeyWord.length := by decide
    omega
  have ha : ((m.output img.last).take i).length = i := List.length_take_of_le hi
  have hout : m.output img.last =
      (m.output img.last).take i ++ (sanityCrcKeyWord ++ (digits ++ rest)) := by
    rw [← hdrop, List.take_append_drop]
  refine ⟨(m.output img.last).take i, digits ++ rest, ⟨hout, fun j hj => ?_⟩, ?_, ?_⟩
  · rw [← hdropped]
    exact hfirst _ (Nat.le_add_right _ _) (by omega)
  · rw [List.length_append]
    omega
  · have hget : ∀ j < 8, (digits ++ rest).getD j 0 = digits.getD j 0 := fun j hj =>
      List.getD_append _ _ _ _ (by omega)
    rw [sanityCrc_congr hget, hcrc]
    have hlen : (outputs m img.chunks).length + i + sanityCrcKeyWord.length =
        (outputs m img.chunks ++ ((m.output img.last).take i ++ sanityCrcKeyWord)).length := by
      rw [List.length_append, List.length_append, ha]
      omega
    have himage : img.image m = (outputs m img.chunks ++
        ((m.output img.last).take i ++ sanityCrcKeyWord)) ++ (digits ++ rest) := by
      rw [image_eq, List.append_assoc, List.append_assoc, ← hout]
    rw [hlen, himage, List.take_left]

theorem length_le_flatMap_chunkBytes : zs.length ≤ (zs.flatMap chunkBytes).length := by
  induction zs with
  | nil => exact Nat.le_refl _
  | cons z zs ih =>
    rw [List.flatMap_cons, List.length_append, length_chunkBytes, List.length_cons]
    omega

/-- The operations behind the header leave the destination area as it is, and set the boot info. -/
theorem finish_flash {L : Nat} (hl : Layout m info.imageSize L) {x : Nat}
    (hx : InRange m.dstFlashOffset (roundUp L) x) :
    after Op.apply (updateOps m ++ eraseSourceOps m info) g x = g x := by
  refine after_of_not_covers fun op hop hcovers => ?_
  have hboot : ∀ y, InRange m.bootInfo sectorSize y → y ≠ x := fun y hy hyx =>
    hl.dst_boot x hx (hyx ▸ hy)
  rcases List.mem_append.1 hop with hop | hop
  · rcases List.mem_cons.1 hop with rfl | hop
    · obtain ⟨hlo, hhi⟩ := inRange_of_eraseOp hcovers
      refine hboot x ⟨?_, ?_⟩ rfl
      · have := hl.boot
        simp only [sectorSize] at *
        omega
      · have := hl.boot
        unfold roundUp at hhi
        simp only [sectorSize] at *
        omega
    · rw [List.mem_singleton.1 hop] at hcovers
      have hw := inRange_of_writeOp hcovers
      rw [length_leBytes] at hw
      exact hboot x ⟨hw.1, Nat.lt_trans hw.2 (by simp only [sectorSize]; omega)⟩ rfl
  · exact hl.dst_src x hx (inRange_of_eraseSourceOps hl.src hop hcovers)

theorem finish_bootInfo {L : Nat} (hl : Layout m info.imageSize L) :
    le (after Op.apply (updateOps m ++ eraseSourceOps m info) g) m.bootInfo 4 = normalBoot := by
  have hbyte : ∀ i < 4, after Op.apply (updateOps m ++ eraseSourceOps m info) g (m.bootInfo + i) =
      leByte normalBoot (0 + i) := by
    intro i hi
    have hrange : InRange m.bootInfo sectorSize (m.bootInfo + i) :=
      ⟨Nat.le_add_right _ _, by simp only [sectorSize]; omega⟩
    rw [InOrder.after_append, after_of_not_covers fun op hop hcovers =>
      hl.src_boot _ (inRange_of_eraseSourceOps hl.src hop hcovers) hrange]
    show (writeOp m.bootInfo (leBytes 4 normalBoot)).apply
      ((eraseOp m.bootInfo sectorSize).apply g) (m.bootInfo + i) = _
    have hwrite : InRange m.bootInfo (leBytes 4 normalBoot).length (m.bootInfo + i) := by
      rw [length_leBytes]
      exact ⟨Nat.le_add_right _ _, by omega⟩
    rw [rewrite_of_inRange hwrite hrange, Nat.add_sub_cancel_left, Nat.zero_add,
      List.getD_eq_getElem?_getD, leBytes, List.getElem?_map, List.getElem?_range hi]
    rfl
  rw [le_leByte hbyte]
  decide

theorem otaBootInfo_imageSize_lt : (m.otaBootInfo f).imageSize < 0x100000000 := by
  have h : le f (m.bootInfo + 4) 4 < 256 ^ 4 := le_lt
  simp only [Nat.reducePow] at h
  exact h

/-- The trailer enters the checksum. -/
theorem addRemain_eq {trailer : List UInt8}
    (hend : c.readOffset + trailer.length = info.imageSize) (hlt : info.imageSize < 0x100000000)
    (hread : m.srcRead info c.flash c.readOffset trailer.length = some trailer)
    (hle : trailer.length ≤ m.poolSize) :
    addRemain m info c = some { c with crcValue := crc32C c.crcValue trailer } := by
  have hremain : (info.imageSize + 0x100000000 - c.readOffset) % 0x100000000 =
      trailer.length := by omega
  have hmalloc : m.lzmaMalloc trailer.length = true := decide_eq_true hle
  unfold addRemain
  dsimp only
  rw [hremain, if_pos hmalloc, hread, Option.map_some]

/-- The way through `ota_copy_compressed_image` when the checksums agree. -/
theorem otaCopyCompressedImage_eq {magic : List UInt8} {c₁ c₂ c₃ : Copying}
    (hmagic : m.srcRead (m.otaBootInfo f) f 0 4 = some magic) (hboot : leAt magic 0 4 = normalBoot)
    (hloop : copyLoop m (m.otaBootInfo f) (m.otaBootInfo f).imageSize (startCopying f) = some c₁)
    (hremain : addRemain m (m.otaBootInfo f) c₁ = some c₂)
    (hcrc : c₂.crcValue = (m.otaBootInfo f).imageCrc ∧
      (c₂.sanityCrc32 = c₂.crcValueDcom ∨ c₂.sanityCrc32 = 0))
    (hheader : setHeader m c₂ = some c₃) :
    otaCopyCompressedImage m f =
      some (eraseSource m (m.otaBootInfo f) (updateMagicNumber m normalBoot c₃), true) := by
  have hne : ¬leAt magic 0 4 ≠ normalBoot := not_not.2 hboot
  unfold otaCopyCompressedImage
  dsimp only
  rw [hmagic, Option.bind_eq_bind, Option.bind_some, if_neg hne, Option.bind_eq_bind, hloop,
    Option.bind_some, hremain, Option.bind_some, if_pos hcrc, hheader, Option.bind_some,
    Option.pure_def]

/-- A source image is installed. -/
theorem exists_installsWith (hs : IsSource m f img) (hi : Installable m f img) :
    ∃ pre, InstallsWith m img f pre := by
  obtain ⟨k, hk, hlek, hfirst⟩ := hi.keyWord
  obtain ⟨a, b, hocc, hb, hcrc⟩ := exists_occursFirst hk hlek hfirst
  have hl := hi.layout
  have hlt := m.poolSize_lt
  have himage : img.image m = outputs m ([] ++ img.chunks ++ [img.last]) := by
    rw [List.nil_append, image_eq, outputs_append, outputs_singleton]
  have hlen := congrArg List.length hs.source
  rw [length_readFlash, List.length_append, length_leBytes, CompressedImage.body,
    List.length_append] at hlen
  have hhdr : sizeofBootHdr ≤ (img.image m).length := by
    rw [image_eq, hocc.eq, List.length_append, List.length_append, List.length_append]
    exact Nat.le_trans (by decide : sizeofBootHdr ≤ sanityCrcKeyWord.length) (by omega)
  -- the loop
  have hinit : Copied m f (img.image m).length []
      (startCopying f) :=
    ⟨rfl, rfl, rfl, fun h => absurd rfl h, rfl, fun op hop => absurd hop List.not_mem_nil,
      fun i hi => absurd hi (Nat.not_lt_zero i)⟩
  have hfuel : img.chunks.length < (m.otaBootInfo f).imageSize := by
    have hle : (img.chunks ++ [img.last]).length ≤
        ((img.chunks ++ [img.last]).flatMap chunkBytes).length := length_le_flatMap_chunkBytes
    rw [List.length_append, List.length_singleton] at hle
    omega
  obtain ⟨c₁, hc₁, hdcom, hloop⟩ := copyLoop_chunks hinit hl
    (by rw [hs.source, List.flatMap_nil, List.append_nil]; rfl) hs.trailer_length hs.trailer
    hi.chunks_le
    (by rw [List.nil_append]; exact hs.full) (by rw [← himage]; exact hhdr)
    (by rw [← himage]) (crc32C_nil 0).symm hfuel
  rw [hocc.readSanityCrc_eq hb] at hloop
  -- the trailer
  have hoffset : c₁.readOffset = (leBytes 4 normalBoot ++
      (img.chunks ++ [img.last]).flatMap chunkBytes).length := by
    rw [hc₁.readOffset, List.nil_append, List.length_append, length_leBytes]
  have hsource : readFlash f m.srcFlashOffset (m.otaBootInfo f).imageSize =
      leBytes 4 normalBoot ++ (img.chunks ++ [img.last]).flatMap chunkBytes ++
        (img.trailer ++ []) := by
    rw [hs.source, CompressedImage.body, List.append_nil, List.append_assoc]
  have htrailer : m.srcRead (m.otaBootInfo f) c₁.flash c₁.readOffset img.trailer.length =
      some img.trailer := by
    rw [hc₁.srcRead_eq hl]
    exact srcRead_part hsource hoffset rfl
  have hcrcValue : crc32C c₁.crcValue img.trailer = (m.otaBootInfo f).imageCrc := by
    rw [hc₁.crcValue, hs.imageCrc, CompressedImage.body, ← List.append_assoc, List.nil_append,
      crc32C_append 0 _ img.trailer]
  have hdcomp : crc32C c₁.crcValueDcom (a ++ sanityCrcKeyWord) =
      crc32C 0 (outputs m img.chunks ++ (a ++ sanityCrcKeyWord)) := by
    rw [hdcom, List.nil_append, ← crc32C_append]
  -- the header
  obtain ⟨c₂, hc₂, hflash, hops, hinstalled⟩ := hc₁.setHeader (by rw [← himage]) hhdr
    (List.append_ne_nil_of_right_ne_nil _ (List.cons_ne_nil _ _)) hl.dst
    (crc32C c₁.crcValue img.trailer) (crc32C c₁.crcValueDcom (a ++ sanityCrcKeyWord))
    (sanityCrc fun i => b.getD i 0)
  rw [← himage] at hinstalled
  -- the end
  have hmagic : m.srcRead (m.otaBootInfo f) f 0 4 = some (leBytes 4 normalBoot) := by
    have hsource : readFlash f m.srcFlashOffset (m.otaBootInfo f).imageSize =
      [] ++ (leBytes 4 normalBoot ++ img.body) := hs.source
    exact srcRead_part hsource rfl rfl
  have hboot : leAt (leBytes 4 normalBoot) 0 4 = normalBoot := by decide
  have hend : c₁.readOffset + img.trailer.length = (m.otaBootInfo f).imageSize := by
    rw [hoffset, List.length_append, length_leBytes]
    omega
  have hremain := addRemain_eq (c := { c₁ with
      sanityCrc32 := sanityCrc fun i => b.getD i 0
      crcValueDcom := crc32C c₁.crcValueDcom (a ++ sanityCrcKeyWord) })
    hend otaBootInfo_imageSize_lt htrailer hi.trailer_le
  have hrun := otaCopyCompressedImage_eq hmagic hboot hloop hremain
    ⟨hcrcValue, Or.inl (hcrc.trans hdcomp.symm)⟩ hc₂
  obtain ⟨hops₃, hflash₃⟩ := foldl_exec (updateMagicNumber m normalBoot c₂)
    (List.range (((m.otaBootInfo f).imageSize + sectorSize - 1) / sectorSize))
    fun k => eraseOp (m.srcFlashOffset + k * sectorSize) sectorSize
  have hops₂ : (updateMagicNumber m normalBoot c₂).ops = c₂.ops ++ updateOps m :=
    List.append_assoc _ _ _
  have hpost : (eraseSource m (m.otaBootInfo f) (updateMagicNumber m normalBoot c₂)).flash =
      after Op.apply (updateOps m ++ eraseSourceOps m (m.otaBootInfo f)) c₂.flash := by
    rw [InOrder.after_append]
    exact hflash₃
  rw [hops₂] at hops₃
  refine ⟨c₂.ops, hops, fun i hin => by rw [← hflash]; exact hinstalled i hin, _, _, hrun, hops₃,
    ?_,
    fun i hin => ?_, ?_⟩
  · rw [hpost, hflash, ← InOrder.after_append, ← List.append_assoc]
    exact congrArg (after Op.apply · f) hops₃.symm
  · have hrange : InRange m.dstFlashOffset (roundUp (img.image m).length) (m.dstFlashOffset + i) :=
      ⟨Nat.le_add_right _ _, Nat.add_lt_add_left (Nat.lt_of_lt_of_le hin (le_roundUp _)) _⟩
    rw [hpost, finish_flash hl hrange]
    exact hinstalled i hin
  · rw [hpost]
    exact finish_bootInfo hl

end Source

end EarbudFirmware.Lzma
