import EarbudFirmware.Lib.Transition
import EarbudFirmware.Tota.Reception

/-!
# The buffers of the receiver

A packet is copied out of the queue into `temp_buf` and checked there, decrypted into `codeBuf`, and
put into `RxDataCacheBuffer`. Its length comes from the peer and has 32 bits, and so have the
offsets that are computed from it. What a damaged packet has behind it stays in the queue.

## Main definitions

* `BufAccess`, `within` — the bytes of a buffer that are read or written
* `RxEnv` — the receiver and the connect status
* `RxEnv.sAppTotaRx` — `s_app_tota_rx`, as long as every access stays inside its buffer
* `UnpacksSafely` — the bytes in the queue of which this is so

## Main results

* `RxEnv.unpackLoop_spec` — what the loop does to the queue
* `rxSafe_iff` — the runs in which the receiver stays inside its buffers and has room
-/

namespace EarbudFirmware.Tota

/-- The buffers that the reception of a packet uses. -/
inductive RxBuffer where
  | tempBuf
  | codeBuf
  | rxDataCacheBuffer
  deriving DecidableEq

/-- How many bytes a buffer has. -/
def RxBuffer.size : RxBuffer → Nat
  | tempBuf | codeBuf => maxSppPacketSize
  | rxDataCacheBuffer => totaDataCacheBufferSize

/-- Bytes of a buffer that are read or written. -/
structure BufAccess where
  buffer : RxBuffer
  offset : Nat
  len : Nat

/-- The access stays inside the buffer. -/
def BufAccess.inside (a : BufAccess) : Bool := a.offset + a.len ≤ a.buffer.size

/-- `r`, if the accesses stay inside their buffers. -/
def within {α : Type*} (as : List BufAccess) (r : Option α) : Option α :=
  if as.all BufAccess.inside then r else none

/-- `TOTA_PACKET_CRC_OFFSET`, in 32 bits. -/
def totaPacketCrcOffset (len : Nat) : Nat := (len + totaPacketBufOffset) % 0x100000000

/-- `TOTA_PACKET_TAIL_OFFSET`, in 32 bits. -/
def totaPacketTailOffset (len : Nat) : Nat := (len + totaPacketBufOffset + 4) % 0x100000000

/-- The accesses of `app_tota_store` to `dataLen` bytes at an offset of a buffer and to the cache,
which has `cached` bytes. -/
def storeAccesses (src : RxBuffer) (offset dataLen cached : Nat) : List BufAccess :=
  if cached + dataLen ≤ totaDataCacheBufferSize then
    [⟨src, offset, dataLen⟩, ⟨.rxDataCacheBuffer, cached, dataLen⟩, ⟨.rxDataCacheBuffer, 2, 2⟩]
  else [⟨.rxDataCacheBuffer, 0, totaDataCacheBufferSize⟩]

/-- The accesses of `tota_decrypt`, which pads the packet in `temp_buf`. -/
def decryptAccesses (inLen : Nat) : List BufAccess :=
  [⟨.tempBuf, totaPacketBufOffset + inLen, (padding inLen).length⟩,
    ⟨.tempBuf, totaPacketBufOffset, inLen + (padding inLen).length⟩,
    ⟨.codeBuf, 0, inLen + (padding inLen).length⟩]

/-- The receiver and the connect status. -/
structure RxEnv where
  rx : TotaRx
  status : ConnectStatus

namespace RxEnv

/-- After `tota_common_init`, with any connect status. -/
def start (status : ConnectStatus) : RxEnv := ⟨.initial, status⟩

/-- `tota_rx_queue_deinit`. -/
def totaRxQueueDeinit (env : RxEnv) : RxEnv := { env with rx := env.rx.totaRxQueueDeinit }

section Receiver

variable (cipher : Cipher) (received : ConnectStatus → List UInt8 → ConnectStatus)

/-- The `switch` of `app_tota_rx_unpack`. -/
def storePacket (env : RxEnv) (pbuf : List UInt8) : Option (RxStore × StoreStatus) :=
  let s := env.rx.store
  match env.status with
  | .connected =>
    within (storeAccesses .tempBuf totaPacketBufOffset pbuf.length s.cache.length)
      (some (s.appTotaStore pbuf))
  | .shakeHanded =>
    let decoded := totaDecrypt cipher pbuf
    within (decryptAccesses pbuf.length ++
      storeAccesses .codeBuf 0 decoded.length s.cache.length) (some (s.appTotaStore decoded))
  | .disconnected => some (s, .fail)

/-- The end of `app_tota_rx_unpack`. The handler of a command may change the connect status. -/
def unpacked (env : RxEnv) (pbuf : List UInt8) : Option RxEnv :=
  (env.storePacket cipher pbuf).bind fun (s, status) =>
    if status = .ok then
      within [⟨.rxDataCacheBuffer, 0, totaDataCacheBufferSize⟩]
        (some ⟨{ env.rx with store := ⟨[], s.calls ++ [s.cache]⟩ }, received env.status s.cache⟩)
    else some { env with rx := { env.rx with store := s } }

/-- `app_tota_rx_unpack` from the copy of the packet to `temp_buf` on. -/
def checkPacket (env : RxEnv) (bufLen : Nat) (tempBuf : List UInt8) : Option (RxEnv × Int) :=
  within [⟨.tempBuf, 0, tempBuf.length⟩, ⟨.tempBuf, totaPacketCrcOffset bufLen, 4⟩,
      ⟨.tempBuf, totaPacketTailOffset bufLen, 4⟩] <|
    if (tempBuf.drop (totaPacketTailOffset bufLen)).take 4 ≠ totaTail then some (env, -6)
    else
      within [⟨.tempBuf, totaPacketBufOffset, bufLen⟩] <|
        let pbuf := (tempBuf.drop totaPacketBufOffset).take bufLen
        if (crc32C 0 pbuf).toNat ≠ leAt tempBuf (totaPacketCrcOffset bufLen) 4 then some (env, -7)
        else (env.unpacked cipher received pbuf).map fun env => (env, 0)

/-- `app_tota_rx_unpack`, `none` when an access leaves its buffer. -/
def appTotaRxUnpack (env : RxEnv) (dataLen : Nat) : Option (RxEnv × Int) :=
  let dataLen := if dataLen < maxSppPacketSize then dataLen else maxSppPacketSize
  let verify := env.rx.totaRxQueuePeek totaPacketBufOffset
  let bufLen := leAt verify 4 4
  if verify.take 4 ≠ totaHead then some (env.totaRxQueueDeinit, -1)
  else if totaPacketTotalSize bufLen > maxSppPacketSize then some (env.totaRxQueueDeinit, -2)
  else if totaPacketTotalSize bufLen > dataLen then some (env, -3)
  else
    match env.rx.totaRxQueuePop (totaPacketTotalSize bufLen) with
    | none => some (env.totaRxQueueDeinit, -4)
    | some (rx, tempBuf) => checkPacket cipher received { env with rx } bufLen tempBuf

/-- The loop of `s_app_tota_rx`, `none` when it takes more rounds than `fuel`. -/
def unpackLoop : (fuel : Nat) → RxEnv → Option RxEnv
  | 0, env => if totaPacketVerifySize < env.rx.totaRxQueueLength then none else some env
  | fuel + 1, env =>
    if totaPacketVerifySize < env.rx.totaRxQueueLength then
      (env.appTotaRxUnpack cipher received env.rx.totaRxQueueLength).bind fun (env, ret) =>
        if ret ≠ 0 then some env else unpackLoop fuel env
    else some env

/-- `s_app_tota_rx` without its shortcuts: `none` when an access leaves its buffer, when the queue
is full, or when the loop takes more rounds than there are bytes in the queue. -/
def sAppTotaRx (env : RxEnv) (cmdBuf : List UInt8) : Option RxEnv :=
  (env.rx.totaRxQueuePush cmdBuf).bind fun rx =>
    ({ env with rx } : RxEnv).unpackLoop cipher received rx.totaRxQueueLength

end Receiver

end RxEnv

/-- A chunk that the link delivers. -/
structure RxChunk where
  bytes : List UInt8
  pos : 0 < bytes.length
  le : bytes.length ≤ maxSppPacketSize

/-- What happens to the receiver: the connect status is set, or a chunk arrives. -/
inductive RxEvent where
  | setConnectStatus (status : ConnectStatus)
  | chunk (d : RxChunk)

/-- One event. -/
def rxStep (cipher : Cipher) (received : ConnectStatus → List UInt8 → ConnectStatus) (env : RxEnv) :
    RxEvent → Option RxEnv
  | .setConnectStatus status => some { env with status }
  | .chunk d => env.sAppTotaRx cipher received d.bytes

/-- Whatever chunk comes next, the assertion of `s_app_tota_rx` does not fail. -/
def RxEnv.HasRoom (env : RxEnv) : Prop :=
  ∀ d : RxChunk, (env.rx.totaRxQueuePush d.bytes).isSome

/-- The bytes in the queue of which the loop stays inside the buffers and leaves room. Their packets
are taken out up to the first one that is damaged, which has at most a chunk behind it. The length
of a damaged one may be so near to 32 bits that its size is a small number, if this is enough for
the checksum and the tail. -/
def UnpacksSafely (w : List UInt8) : Prop :=
  if w.length ≤ totaPacketVerifySize ∨ w.take 4 ≠ totaHead then True
  else if leAt w 4 4 + totaPacketVerifySize < 0x100000000 then
    let n := leAt w 4 4 + totaPacketVerifySize
    if maxSppPacketSize < n ∨ w.length < n then True
    else if ChecksOut (w.take n) then UnpacksSafely (w.drop n)
    else w.length - n ≤ maxSppPacketSize
  else
    let n := leAt w 4 4 + totaPacketVerifySize - 0x100000000
    8 ≤ n ∧ (w.take n).drop (n - 4) ≠ totaTail ∧ w.length - n ≤ maxSppPacketSize
termination_by w.length
decreasing_by
  rename_i h _ _
  rw [List.length_drop]
  simp only [totaPacketVerifySize, not_or, not_le] at *
  omega

/-! ### Accesses -/

section Access

variable {α : Type*} {as : List BufAccess} {r : Option α}

theorem within_of_inside (h : ∀ a ∈ as, a.offset + a.len ≤ a.buffer.size) : within as r = r :=
  if_pos (List.all_eq_true.mpr fun a ha => decide_eq_true (h a ha))

theorem within_of_outside {a : BufAccess} (ha : a ∈ as) (h : a.buffer.size < a.offset + a.len) :
    within as r = none :=
  if_neg fun hall => absurd (of_decide_eq_true (List.all_eq_true.mp hall a ha)) (by omega)

end Access

/-- The store reads the packet and writes the cache. -/
theorem storeAccesses_inside {src : RxBuffer} {offset n cached : Nat}
    (h : offset + n ≤ src.size) :
    ∀ a ∈ storeAccesses src offset n cached, a.offset + a.len ≤ a.buffer.size := by
  rw [storeAccesses]
  split_ifs with hfits
  · simp only [List.forall_mem_cons, List.not_mem_nil, false_imp_iff, implies_true, and_true]
    exact ⟨h, hfits, by decide⟩
  · simp only [List.forall_mem_cons, List.not_mem_nil, false_imp_iff, implies_true, and_true]
    exact Nat.le_refl _

/-- The padding of a packet that was received still fits `temp_buf`. -/
theorem decryptAccesses_inside {n : Nat} (h : n + totaPacketVerifySize ≤ maxSppPacketSize) :
    ∀ a ∈ decryptAccesses n, a.offset + a.len ≤ a.buffer.size := by
  have hpadded : n + (padding n).length ≤ 656 := by
    have hmod := @length_padding_mod n
    have hlt := @length_padding_lt n
    simp only [totaPacketVerifySize, maxSppPacketSize, encryptKeySize] at h hmod hlt
    omega
  simp only [decryptAccesses, List.forall_mem_cons, List.not_mem_nil, false_imp_iff, implies_true,
    and_true, RxBuffer.size, totaPacketBufOffset, maxSppPacketSize]
  omega

theorem length_totaDecrypt (c : Cipher) (buf : List UInt8) :
    (totaDecrypt c buf).length = buf.length + (padding buf.length).length := by
  have hmod : (buf ++ padding buf.length).length % encryptKeySize = 0 := by
    rw [List.length_append]
    exact length_padding_mod
  rw [totaDecrypt, c.length_decrypt _ hmod, List.length_append]

namespace RxEnv

variable (cipher : Cipher) (received : ConnectStatus → List UInt8 → ConnectStatus)
variable {env env' : RxEnv}

/-- The bytes in the queue. -/
def contents (env : RxEnv) : List UInt8 := env.rx.contents

/-- Storing a packet leaves the queue alone. -/
theorem unpacked_spec {pbuf : List UInt8}
    (h : pbuf.length + totaPacketVerifySize ≤ maxSppPacketSize) :
    ∃ env', env.unpacked cipher received pbuf = some env' ∧
      env'.rx.rxDataQueue = env.rx.rxDataQueue := by
  obtain ⟨s, status, hstore⟩ : ∃ s status, env.storePacket cipher pbuf = some (s, status) := by
    rw [storePacket]
    cases env.status with
    | connected =>
      refine ⟨_, _, within_of_inside (storeAccesses_inside ?_)⟩
      simp only [RxBuffer.size, totaPacketBufOffset, totaPacketVerifySize] at h ⊢
      omega
    | shakeHanded =>
      refine ⟨_, _, within_of_inside fun a ha => ?_⟩
      rcases List.mem_append.mp ha with ha | ha
      · exact decryptAccesses_inside h a ha
      · refine storeAccesses_inside ?_ a ha
        have hcode := decryptAccesses_inside h _ (List.mem_of_mem_getLast? rfl)
        rw [length_totaDecrypt]
        exact hcode
    | disconnected => exact ⟨_, _, rfl⟩
  rw [unpacked, hstore, Option.bind_some]
  dsimp only
  split_ifs
  · exact ⟨_, within_of_inside (by simp [RxBuffer.size]), rfl⟩
  · exact ⟨_, rfl, rfl⟩

section Unpack

variable (hwf : env.rx.WellFormed) (hpos : totaPacketVerifySize < env.contents.length)
include hwf hpos

/-- What `app_tota_rx_unpack` looks at. -/
theorem peek_eq : env.rx.totaRxQueuePeek totaPacketBufOffset =
    env.contents.take totaPacketBufOffset :=
  totaRxQueuePeek_spec hwf (Nat.le_trans (by decide) (Nat.le_of_lt hpos))

omit hwf hpos in
theorem peeked_len (w : List UInt8) :
    leAt (w.take totaPacketBufOffset) 4 4 = leAt w 4 4 ∧
      (w.take totaPacketBufOffset).take 4 = w.take 4 :=
  ⟨leAt_take (by decide), by rw [List.take_take]; rfl⟩

/-- Bytes that are no packet are thrown away. -/
theorem appTotaRxUnpack_reset (h : env.contents.take 4 ≠ totaHead ∨
      maxSppPacketSize < totaPacketTotalSize (leAt env.contents 4 4)) :
    ∃ ret, env.appTotaRxUnpack cipher received env.contents.length =
      some (env.totaRxQueueDeinit, ret) ∧ ret ≠ 0 := by
  obtain ⟨hlen, hhead⟩ := peeked_len env.contents
  rw [appTotaRxUnpack, peek_eq hwf hpos]
  rw [hhead, hlen]
  by_cases hno : env.contents.take 4 ≠ totaHead
  · exact ⟨-1, if_pos hno, by decide⟩
  · have hlong := h.resolve_left hno
    exact ⟨-2, by rw [if_neg hno, if_pos hlong], by decide⟩

/-- A packet that is not complete is waited for. -/
theorem appTotaRxUnpack_waits (hhead : env.contents.take 4 = totaHead)
    (hle : totaPacketTotalSize (leAt env.contents 4 4) ≤ maxSppPacketSize)
    (hlt : env.contents.length < totaPacketTotalSize (leAt env.contents 4 4)) :
    env.appTotaRxUnpack cipher received env.contents.length = some (env, -3) := by
  obtain ⟨hlen, hhead'⟩ := peeked_len env.contents
  rw [appTotaRxUnpack, peek_eq hwf hpos]
  rw [hhead', hlen, if_neg (not_not.mpr hhead), if_neg (by omega),
    if_pos (by split_ifs <;> omega)]

/-- A packet is taken out of the queue. -/
theorem appTotaRxUnpack_popped (hhead : env.contents.take 4 = totaHead) {n : Nat}
    (hn : totaPacketTotalSize (leAt env.contents 4 4) = n) (hmax : n ≤ maxSppPacketSize)
    (hle : n ≤ env.contents.length) :
    ∃ env' : RxEnv, env'.rx.WellFormed ∧ env'.contents = env.contents.drop n ∧
      env.appTotaRxUnpack cipher received env.contents.length =
        env'.checkPacket cipher received (leAt env.contents 4 4) (env.contents.take n) := by
  obtain ⟨rx, hpop, hwf', hcontents, -⟩ := totaRxQueuePop_spec hwf hle
  obtain ⟨hlen, hhead'⟩ := peeked_len env.contents
  refine ⟨{ env with rx }, hwf', hcontents, ?_⟩
  rw [appTotaRxUnpack, peek_eq hwf hpos]
  rw [hhead', hlen, hn, if_neg (not_not.mpr hhead), if_neg (by omega),
    if_neg (by split_ifs <;> omega), hpop]
  rfl

/-- A complete packet is checked inside the buffers. -/
theorem appTotaRxUnpack_checked (hhead : env.contents.take 4 = totaHead) {n : Nat}
    (hn : leAt env.contents 4 4 + totaPacketVerifySize = n) (hmax : n ≤ maxSppPacketSize)
    (hle : n ≤ env.contents.length) :
    ∃ env' ret, env.appTotaRxUnpack cipher received env.contents.length = some (env', ret) ∧
      (ret = 0 ↔ ChecksOut (env.contents.take n)) ∧ env'.rx.WellFormed ∧
      env'.contents = env.contents.drop n := by
  have hsmall : n < 0x100000000 := Nat.lt_of_le_of_lt hmax (by decide)
  have htotal : totaPacketTotalSize (leAt env.contents 4 4) = n := by
    rw [totaPacketTotalSize, hn, Nat.mod_eq_of_lt hsmall]
  obtain ⟨env₁, hwf', hcontents, heq⟩ :=
    appTotaRxUnpack_popped cipher received hwf hpos hhead htotal hmax hle
  have hlength : (env.contents.take n).length = n := List.length_take_of_le hle
  have hoffsets : totaPacketCrcOffset (leAt env.contents 4 4) = n - 8 ∧
      totaPacketTailOffset (leAt env.contents 4 4) = n - 4 ∧ 16 ≤ n ∧
      leAt env.contents 4 4 = n - 16 := by
    simp only [totaPacketCrcOffset, totaPacketTailOffset, totaPacketBufOffset,
      totaPacketVerifySize] at hn ⊢
    omega
  obtain ⟨hcrc, htail, hge, hbuf⟩ := hoffsets
  have htailLength : ((env.contents.take n).drop (n - 4)).length = 4 := by
    rw [List.length_drop, hlength]
    omega
  have hpbuf : ((env.contents.take n).drop totaPacketBufOffset).take (n - 16) =
      packetBuf (env.contents.take n) := by
    rw [packetBuf, hlength]
    rfl
  simp only [maxSppPacketSize] at hmax
  rw [checkPacket, hcrc, htail, hbuf, hlength, hpbuf, List.take_of_length_le htailLength.le,
    within_of_inside (by
      simp only [List.forall_mem_cons, List.not_mem_nil, false_imp_iff, implies_true, and_true,
        RxBuffer.size, maxSppPacketSize]
      omega),
    within_of_inside (by
      simp only [List.forall_mem_cons, List.not_mem_nil, false_imp_iff, implies_true, and_true,
        RxBuffer.size, maxSppPacketSize, totaPacketBufOffset]
      omega)] at heq
  have hchecks : ChecksOut (env.contents.take n) ↔
      (env.contents.take n).drop (n - 4) = totaTail ∧
        (crc32C 0 (packetBuf (env.contents.take n))).toNat =
          leAt (env.contents.take n) (n - 8) 4 := by
    rw [ChecksOut, hlength]
  rw [hchecks]
  by_cases ht : (env.contents.take n).drop (n - 4) = totaTail
  · rw [if_neg (not_not.mpr ht)] at heq
    by_cases hc : (crc32C 0 (packetBuf (env.contents.take n))).toNat =
        leAt (env.contents.take n) (n - 8) 4
    · have hroom : (packetBuf (env.contents.take n)).length + totaPacketVerifySize ≤
          maxSppPacketSize := by
        rw [← hpbuf, List.length_take, List.length_drop, hlength]
        simp only [totaPacketVerifySize, totaPacketBufOffset, maxSppPacketSize]
        omega
      obtain ⟨env', hunpacked, hqueue⟩ := @unpacked_spec cipher received env₁ _ hroom
      rw [if_neg (not_not.mpr hc), hunpacked] at heq
      refine ⟨env', 0, heq, iff_of_true rfl ⟨ht, hc⟩, ⟨?_, ?_⟩, ?_⟩
      · rw [hqueue]
        exact hwf'.queue
      · rw [hqueue]
        exact hwf'.size
      · rw [contents, TotaRx.contents, hqueue]
        exact hcontents
    · rw [if_pos hc] at heq
      exact ⟨_, _, heq, iff_of_false (by decide) fun h => hc h.2, hwf', hcontents⟩
  · rw [if_pos ht] at heq
    exact ⟨_, _, heq, iff_of_false (by decide) fun h => ht h.1, hwf', hcontents⟩

/-- A length near to 32 bits is a packet of a few bytes, which is checked inside the buffers only
when the checksum and the tail are among them, and the tail is wrong. -/
theorem appTotaRxUnpack_wrapped (hhead : env.contents.take 4 = totaHead) {n : Nat}
    (hn : leAt env.contents 4 4 + totaPacketVerifySize = 0x100000000 + n) :
    if 8 ≤ n ∧ (env.contents.take n).drop (n - 4) ≠ totaTail then
      ∃ env', env.appTotaRxUnpack cipher received env.contents.length = some (env', -6) ∧
        env'.rx.WellFormed ∧ env'.contents = env.contents.drop n
    else env.appTotaRxUnpack cipher received env.contents.length = none := by
  have hfield : leAt env.contents 4 4 < 0x100000000 := le_lt
  simp only [totaPacketVerifySize] at hn hpos
  have hlt : n < 16 := by omega
  have htotal : totaPacketTotalSize (leAt env.contents 4 4) = n := by
    simp only [totaPacketTotalSize, totaPacketVerifySize]
    omega
  obtain ⟨env₁, hwf', hcontents, heq⟩ :=
    appTotaRxUnpack_popped cipher received hwf hpos hhead htotal
      (Nat.le_of_lt (Nat.lt_of_lt_of_le hlt (by decide))) (by omega)
  have hlength : (env.contents.take n).length = n := List.length_take_of_le (by omega)
  by_cases hge : 8 ≤ n
  · have hoffsets : totaPacketCrcOffset (leAt env.contents 4 4) = n - 8 ∧
        totaPacketTailOffset (leAt env.contents 4 4) = n - 4 := by
      simp only [totaPacketCrcOffset, totaPacketTailOffset, totaPacketBufOffset]
      omega
    have htailLength : ((env.contents.take n).drop (n - 4)).length ≤ 4 := by
      rw [List.length_drop, hlength]
      omega
    rw [checkPacket, hoffsets.1, hoffsets.2, hlength, List.take_of_length_le htailLength,
      within_of_inside (by
      simp only [List.forall_mem_cons, List.not_mem_nil, false_imp_iff, implies_true, and_true,
        RxBuffer.size, maxSppPacketSize]
      omega)] at heq
    by_cases ht : (env.contents.take n).drop (n - 4) = totaTail
    · rw [if_neg fun h => h.2 ht]
      rw [if_neg (not_not.mpr ht), within_of_outside List.mem_cons_self (by
        simp only [RxBuffer.size, maxSppPacketSize]
        omega)] at heq
      exact heq
    · rw [if_pos ⟨hge, ht⟩]
      rw [if_pos ht] at heq
      exact ⟨_, heq, hwf', hcontents⟩
  · rw [if_neg fun h => hge h.1, heq, checkPacket]
    -- the checksum is in front of the buffer
    refine within_of_outside (List.mem_cons_of_mem _ List.mem_cons_self) ?_
    simp only [RxBuffer.size, maxSppPacketSize, totaPacketCrcOffset, totaPacketBufOffset]
    omega

end Unpack

/-- A queue that was reset is empty. -/
theorem totaRxQueueDeinit_spec (env : RxEnv) :
    env.totaRxQueueDeinit.rx.WellFormed ∧ env.totaRxQueueDeinit.contents = [] :=
  ⟨⟨CQueue.wellFormed_initCQueue (by decide), rfl⟩, rfl⟩

/-! ### Inside the buffers, the receiver is the one without them -/

theorem eq_some_of_within {α : Type*} {as : List BufAccess} {r : Option α} {x : α}
    (h : within as r = some x) : r = some x := by
  rw [within] at h
  split_ifs at h
  exact h

/-- The handlers leave the connect status alone. -/
def statusKept (status : ConnectStatus) (_ : List UInt8) : ConnectStatus := status

theorem unpacked_eq {e : Endpoint} (hstatus : e.status = env.status) {pbuf : List UInt8}
    (h : env.unpacked e.cipher statusKept pbuf = some env') :
    env'.rx = { env.rx with store := env.rx.store.unpacked e pbuf } := by
  obtain ⟨⟨s, status⟩, hstore, h⟩ := Option.bind_eq_some_iff.mp h
  have hrx : env'.rx = { env.rx with store :=
      if status = .ok then { cache := [], calls := s.calls ++ [s.cache] } else s } := by
    dsimp only at h
    split_ifs at h with hok
    · rw [← Option.some.inj (eq_some_of_within h), if_pos hok]
    · rw [← Option.some.inj h, if_neg hok]
  have hend (r : RxStore × StoreStatus) (hr : r = (s, status)) :
      env'.rx = { env.rx with store :=
        if r.2 = .ok then { cache := [], calls := r.1.calls ++ [r.1.cache] } else r.1 } := by
    rw [hr]
    exact hrx
  rw [RxStore.unpacked, hstatus]
  rw [storePacket] at hstore
  cases hcase : env.status with
  | connected =>
    rw [hcase] at hstore
    exact hend _ (Option.some.inj (eq_some_of_within hstore))
  | shakeHanded =>
    rw [hcase] at hstore
    exact hend _ (Option.some.inj (eq_some_of_within hstore))
  | disconnected =>
    rw [hcase] at hstore
    exact hend _ (Option.some.inj hstore)

/-- With a length that is not near to 32 bits, a packet is unpacked as it is by `TotaRx`. -/
theorem appTotaRxUnpack_eq {e : Endpoint} (hstatus : e.status = env.status) {dataLen : Nat}
    {ret : Int} (hlen : leAt (env.rx.totaRxQueuePeek totaPacketBufOffset) 4 4 ≤ maxSppPacketSize)
    (h : env.appTotaRxUnpack e.cipher statusKept dataLen = some (env', ret)) :
    env.rx.appTotaRxUnpack e dataLen = some (env'.rx, ret) := by
  have hrx {env : RxEnv} {ret' : Int} (h : some (env, ret') = some (env', ret)) :
      some (env.rx, ret') = some (env'.rx, ret) := by
    obtain ⟨rfl, rfl⟩ := Prod.mk.inj (Option.some.inj h)
    rfl
  simp only [appTotaRxUnpack] at h
  simp only [TotaRx.appTotaRxUnpack]
  generalize leAt (env.rx.totaRxQueuePeek totaPacketBufOffset) 4 4 = bufLen at *
  generalize (if dataLen < maxSppPacketSize then dataLen else maxSppPacketSize) = len at *
  split_ifs at h with hhead hlong hshort
  · rw [if_pos hhead]
    exact hrx h
  · rw [if_neg hhead, if_pos hlong]
    exact hrx h
  · rw [if_neg hhead, if_neg hlong, if_pos hshort]
    exact hrx h
  · rw [if_neg hhead, if_neg hlong, if_neg hshort]
    cases hpop : env.rx.totaRxQueuePop (totaPacketTotalSize bufLen) with
    | none =>
      rw [hpop] at h
      exact hrx h
    | some r =>
      obtain ⟨rx, tempBuf⟩ := r
      rw [hpop] at h
      have hchecked := eq_some_of_within h
      have hlength : tempBuf.length = bufLen + 16 := by
        obtain ⟨q, -, hq⟩ := Option.map_eq_some_iff.mp hpop
        rw [← (Prod.mk.inj hq).2, List.length_map, List.length_range]
        simp only [totaPacketTotalSize, totaPacketVerifySize, maxSppPacketSize] at hlen ⊢
        omega
      have htail : totaPacketTailOffset bufLen = totaPacketBufOffset + bufLen + 4 := by
        simp only [totaPacketTailOffset, totaPacketBufOffset, maxSppPacketSize] at hlen ⊢
        omega
      have hcrc : totaPacketCrcOffset bufLen = totaPacketBufOffset + bufLen := by
        simp only [totaPacketCrcOffset, totaPacketBufOffset, maxSppPacketSize] at hlen ⊢
        omega
      have htailLength : (tempBuf.drop (totaPacketBufOffset + bufLen + 4)).length ≤ 4 := by
        rw [List.length_drop, hlength]
        simp only [totaPacketBufOffset]
        omega
      rw [htail, hcrc, List.take_of_length_le htailLength] at hchecked
      dsimp only
      rw [if_neg (Nat.not_lt.mpr hlen)]
      split_ifs at hchecked with ht
      · rw [if_pos ht]
        exact hrx hchecked
      · rw [if_neg ht]
        have hpacket := eq_some_of_within hchecked
        dsimp only at hpacket
        split_ifs at hpacket with hc
        · rw [if_pos hc]
          exact hrx hpacket
        · rw [if_neg hc]
          obtain ⟨env'', hunpacked, hret⟩ := Option.map_eq_some_iff.mp hpacket
          obtain ⟨rfl, rfl⟩ := Prod.mk.inj hret
          have hsame := @unpacked_eq { env with rx } _ e hstatus _ hunpacked
          rw [hsame]

/-! ### The loop -/

/-- What a loop leaves: a queue in which a chunk finds room. -/
def LeavesRoom (out : Option RxEnv) : Prop :=
  ∃ env, out = some env ∧ env.contents.length ≤ maxSppPacketSize

theorem leavesRoom_some (env : RxEnv) :
    LeavesRoom (some env) ↔ env.contents.length ≤ maxSppPacketSize := by
  constructor
  · rintro ⟨t, ht, h⟩
    obtain rfl := Option.some.inj ht
    exact h
  · intro h
    exact ⟨env, rfl, h⟩

theorem not_leavesRoom_none : ¬LeavesRoom none := by
  rintro ⟨t, ht, -⟩
  exact Option.some_ne_none t ht.symm

/-- The loop stays inside the buffers and leaves room exactly for the bytes that unpack safely. -/
theorem unpackLoop_spec {fuel : Nat} (hwf : env.rx.WellFormed)
    (hfuel : env.contents.length ≤ fuel) :
    (∀ t, env.unpackLoop cipher received fuel = some t → t.rx.WellFormed) ∧
      (LeavesRoom (env.unpackLoop cipher received fuel) ↔ UnpacksSafely env.contents) := by
  -- a result of one round ends the loop unless it is 0
  have hends {env env' : RxEnv} {ret : Int} {fuel : Nat}
      (hpos : totaPacketVerifySize < env.contents.length)
      (hstep : env.appTotaRxUnpack cipher received env.contents.length = some (env', ret)) :
      env.unpackLoop cipher received (fuel + 1) =
        if ret ≠ 0 then some env' else env'.unpackLoop cipher received fuel := by
    rw [unpackLoop, env.rx.totaRxQueueLength_eq]
    exact (if_pos hpos).trans (by rw [← contents, hstep]; rfl)
  have hsome {env t : RxEnv} (hwf : env.rx.WellFormed) (h : some env = some t) :
      t.rx.WellFormed := Option.some.inj h ▸ hwf
  induction fuel generalizing env with
  | zero =>
    have hnil : env.contents.length = 0 := Nat.le_zero.mp hfuel
    have hdone : env.unpackLoop cipher received 0 = some env := by
      rw [unpackLoop, env.rx.totaRxQueueLength_eq]
      exact if_neg (by rw [← contents, hnil]; decide)
    rw [hdone, leavesRoom_some, UnpacksSafely, if_pos (.inl (by rw [hnil]; decide)), hnil]
    exact ⟨fun t => hsome hwf, iff_of_true (Nat.zero_le _) trivial⟩
  | succ fuel ih =>
    by_cases hpos : totaPacketVerifySize < env.contents.length
    · by_cases hhead : env.contents.take 4 = totaHead
      · rw [UnpacksSafely, if_neg (by rw [not_or, not_le]; exact ⟨hpos, not_not.mpr hhead⟩)]
        by_cases hsmall : leAt env.contents 4 4 + totaPacketVerifySize < 0x100000000
        · have htotal := totaPacketTotalSize_of_lt hsmall
          rw [if_pos hsmall]
          dsimp only
          generalize hn : leAt env.contents 4 4 + totaPacketVerifySize = n at htotal ⊢
          split_ifs with hno hchecks
          · -- too long, or not complete
            rcases Nat.lt_or_ge maxSppPacketSize n with hlong | hmax
            · obtain ⟨ret, hstep, hret⟩ :=
                appTotaRxUnpack_reset cipher received hwf hpos (.inr (htotal ▸ hlong))
              obtain ⟨hwf', hnil⟩ := totaRxQueueDeinit_spec env
              rw [hends hpos hstep, if_pos hret, leavesRoom_some, hnil]
              exact ⟨fun t => hsome hwf', iff_of_true (Nat.zero_le _) trivial⟩
            · have hlt := hno.resolve_left (Nat.not_lt.mpr hmax)
              have hstep := appTotaRxUnpack_waits cipher received hwf
                hpos hhead (htotal ▸ hmax) (htotal ▸ hlt)
              rw [hends hpos hstep, if_pos (by decide), leavesRoom_some]
              exact ⟨fun t => hsome hwf, iff_of_true (hlt.le.trans hmax) trivial⟩
          · -- a whole packet, behind which the loop goes on
            rw [not_or, not_lt, not_lt] at hno
            obtain ⟨env', ret, hstep, hret, hwf', hcontents⟩ := appTotaRxUnpack_checked
              cipher received hwf hpos hhead hn hno.1 hno.2
            have hshort : env'.contents.length ≤ fuel := by
              rw [hcontents, List.length_drop]
              simp only [totaPacketVerifySize] at hn hpos
              omega
            rw [hends hpos hstep, if_neg (not_not.mpr (hret.mpr hchecks)), ← hcontents]
            exact ih hwf' hshort
          · -- a damaged packet
            rw [not_or, not_lt, not_lt] at hno
            obtain ⟨env', ret, hstep, hret, hwf', hcontents⟩ := appTotaRxUnpack_checked
              cipher received hwf hpos hhead hn hno.1 hno.2
            rw [hends hpos hstep, if_pos (mt hret.mp hchecks), leavesRoom_some, hcontents,
              List.length_drop]
            exact ⟨fun t => hsome hwf', Iff.rfl⟩
        · -- a length near to 32 bits
          obtain ⟨n, hn⟩ := Nat.exists_eq_add_of_le (Nat.not_lt.mp hsmall)
          rw [if_neg hsmall]
          simp only [hn, Nat.add_sub_cancel_left]
          have hstep := appTotaRxUnpack_wrapped cipher received hwf hpos
            hhead hn
          split_ifs at hstep with hsafe
          · obtain ⟨env', hstep, hwf', hcontents⟩ := hstep
            rw [hends hpos hstep, if_pos (by decide), leavesRoom_some, hcontents, List.length_drop]
            exact ⟨fun t => hsome hwf', (and_iff_right_of_imp fun _ => hsafe.1).symm.trans
              (and_congr_right fun _ => (and_iff_right hsafe.2).symm)⟩
          · have hnone : env.unpackLoop cipher received (fuel + 1) = none := by
              rw [unpackLoop, env.rx.totaRxQueueLength_eq]
              exact (if_pos hpos).trans (by rw [← contents, hstep]; rfl)
            rw [hnone]
            refine ⟨fun t ht => (Option.some_ne_none t ht.symm).elim,
              iff_of_false not_leavesRoom_none fun h => ?_⟩
            exact hsafe ⟨h.1, h.2.1⟩
      · -- bytes without a head
        obtain ⟨ret, hstep, hret⟩ := appTotaRxUnpack_reset cipher received hwf hpos (.inl hhead)
        obtain ⟨hwf', hnil⟩ := totaRxQueueDeinit_spec env
        rw [hends hpos hstep, if_pos hret, leavesRoom_some, hnil, UnpacksSafely,
          if_pos (.inr hhead)]
        exact ⟨fun t => hsome hwf', iff_of_true (Nat.zero_le _) trivial⟩
    · have hdone : env.unpackLoop cipher received (fuel + 1) = some env := by
        rw [unpackLoop, env.rx.totaRxQueueLength_eq]
        exact if_neg hpos
      rw [hdone, leavesRoom_some, UnpacksSafely, if_pos (.inl (Nat.not_lt.mp hpos))]
      exact ⟨fun t => hsome hwf,
        iff_of_true ((Nat.not_lt.mp hpos).trans (by decide)) trivial⟩

/-! ### Chunks -/

/-- A chunk is pushed exactly when it fits. -/
theorem push_isSome_iff (env : RxEnv) (d : List UInt8) (hwf : env.rx.WellFormed) :
    (env.rx.totaRxQueuePush d).isSome ↔ env.contents.length + d.length ≤ totaRxBufSize := by
  have hlen : env.rx.rxDataQueue.len = env.contents.length := env.rx.totaRxQueueLength_eq
  constructor
  · intro h
    by_contra hfull
    have hnone : env.rx.rxDataQueue.enCQueue (fun i => d.getD i 0) d.length = none := by
      have hle := hwf.queue.len_le
      rw [hwf.size, hlen] at hle
      refine if_pos ?_
      rw [CQueue.availableOfCQueue, hwf.size, hlen]
      omega
    rw [TotaRx.totaRxQueuePush, hnone] at h
    exact absurd h Bool.false_ne_true
  · intro h
    obtain ⟨rx, hrx, -⟩ := totaRxQueuePush_spec hwf h
    rw [hrx]
    rfl

/-- The longest chunk. -/
def longestChunk : RxChunk where
  bytes := List.replicate maxSppPacketSize 0
  pos := by
    rw [List.length_replicate]
    decide
  le := List.length_replicate.le

theorem hasRoom_iff (hwf : env.rx.WellFormed) :
    env.HasRoom ↔ env.contents.length ≤ maxSppPacketSize := by
  constructor
  · intro h
    have hfits := (push_isSome_iff env _ hwf).mp (h longestChunk)
    simp only [longestChunk, List.length_replicate, totaRxBufSize, maxSppPacketSize] at hfits ⊢
    omega
  · intro h d
    have hd := d.le
    refine (push_isSome_iff env _ hwf).mpr ?_
    simp only [totaRxBufSize, maxSppPacketSize] at h hd ⊢
    omega

/-- The queue is in order, and a chunk finds room in it. -/
structure Ready (env : RxEnv) : Prop where
  wellFormed : env.rx.WellFormed
  room : env.contents.length ≤ maxSppPacketSize

end RxEnv

open RxEnv Transition

/-- The bytes in the queue unpack safely with the chunk behind them. -/
def UnpacksChunk (env : RxEnv) : RxEvent → Prop
  | .setConnectStatus _ => True
  | .chunk d => UnpacksSafely (env.contents ++ d.bytes)

variable {cipher : Cipher} {received : ConnectStatus → List UInt8 → ConnectStatus} {env t : RxEnv}

theorem wellFormed_rxStep {e : RxEvent} (hwf : env.rx.WellFormed)
    (hstep : rxStep cipher received env e = some t) : t.rx.WellFormed := by
  cases e with
  | setConnectStatus status => exact Option.some.inj hstep ▸ hwf
  | chunk d =>
    obtain ⟨rx, hpush, hloop⟩ := Option.bind_eq_some_iff.mp hstep
    have hfits := (push_isSome_iff env d.bytes hwf).mp (Option.isSome_of_eq_some hpush)
    obtain ⟨rx', hpush', hwf', -, -⟩ := totaRxQueuePush_spec hwf hfits
    obtain rfl : rx = rx' := Option.some.inj (hpush.symm.trans hpush')
    have hspec := @RxEnv.unpackLoop_spec cipher received { env with rx } _ hwf'
      (rx.totaRxQueueLength_eq).ge
    exact hspec.1 t hloop

/-- One event, where a chunk finds room. -/
theorem ready_rxStep_iff (e : RxEvent) (h : env.Ready) :
    (∃ t, rxStep cipher received env e = some t ∧ t.Ready) ↔ UnpacksChunk env e := by
  cases e with
  | setConnectStatus status => exact iff_of_true ⟨_, rfl, h.wellFormed, h.room⟩ trivial
  | chunk d =>
    have hfits : env.contents.length + d.bytes.length ≤ totaRxBufSize :=
      Nat.le_trans (Nat.add_le_add h.room d.le) (by decide)
    obtain ⟨rx, hpush, hwf, hcontents, -⟩ := totaRxQueuePush_spec h.wellFormed hfits
    have hloop := @RxEnv.unpackLoop_spec cipher received { env with rx } _ hwf
      (rx.totaRxQueueLength_eq).ge
    have hstep : rxStep cipher received env (.chunk d) =
        ({ env with rx } : RxEnv).unpackLoop cipher received rx.totaRxQueueLength := by
      rw [rxStep, RxEnv.sAppTotaRx, hpush]
      rfl
    have hbytes : ({ env with rx } : RxEnv).contents = env.contents ++ d.bytes := hcontents
    rw [UnpacksChunk, ← hbytes, ← hloop.2, hstep]
    exact ⟨fun ⟨t, ht, hready⟩ => ⟨t, ht, hready.room⟩,
      fun ⟨t, ht, hroom⟩ => ⟨t, ht, hloop.1 t ht, hroom⟩⟩

theorem ready_start (status : ConnectStatus) : (RxEnv.start status).Ready :=
  ⟨⟨CQueue.wellFormed_initCQueue (by decide), rfl⟩, Nat.zero_le _⟩

/-- In a run of chunks, every access stays inside its buffer, every loop ends, and no chunk finds
the queue full, whatever comes next, exactly when every chunk unpacks safely behind the bytes that
are left of those before it. -/
theorem rxSafe_iff (cipher : Cipher) (received : ConnectStatus → List UInt8 → ConnectStatus)
    (status : ConnectStatus) (es : List RxEvent) :
    (∀ fs, fs <+: es → ∃ t, fs.foldlM (rxStep cipher received) (.start status) = some t ∧
      t.HasRoom) ↔ Along (rxStep cipher received) UnpacksChunk (.start status) es := by
  rw [← prefixes_iff_along (fun _ e h => ready_rxStep_iff e h) (ready_start status)]
  refine forall₂_congr fun fs _ => exists_congr fun t => and_congr_right fun hrun => ?_
  have hwf : t.rx.WellFormed :=
    (along_of_forall (fun _ _ => trivial) (RxEnv.start status) fs).preserves
      (fun _ _ _ hwf _ hstep => wellFormed_rxStep hwf hstep) hrun (ready_start status).wellFormed
  rw [hasRoom_iff hwf]
  exact ⟨fun h => ⟨hwf, h⟩, fun h => h.room⟩

/-- A cipher that changes nothing. -/
def plainCipher : Cipher where
  encrypt := id
  decrypt := id
  length_encrypt _ _ := rfl
  length_decrypt _ _ := rfl
  decrypt_encrypt _ _ := rfl

/-- A chunk with the length `0xFFFFFFF0`, whose packet has no byte. -/
def wrappedChunk : RxChunk :=
  ⟨totaHead ++ [0xF0, 0xFF, 0xFF, 0xFF] ++ List.replicate 9 0, by decide, by decide⟩

/-- A chunk of 39 packets without a tail. -/
def damagedChunk : RxChunk :=
  ⟨(List.replicate 39 (totaHead ++ [0x01, 0x00, 0x00, 0x00] ++ List.replicate 9 0)).flatten,
    by decide +kernel, by decide +kernel⟩

/-- The checksum of the first chunk is read in front of `temp_buf`. Three of the second ones fill
the queue, since each leaves all but one of its packets there. -/
theorem chunks_not_safe :
    [RxEvent.chunk wrappedChunk].foldlM (rxStep plainCipher fun s _ => s)
        (.start .connected) = none ∧
      [RxEvent.chunk damagedChunk, .chunk damagedChunk, .chunk damagedChunk].foldlM
        (rxStep plainCipher fun s _ => s) (.start .connected) = none := by
  constructor
  · exact Option.isNone_iff_eq_none.mp (by decide +kernel)
  · exact Option.isNone_iff_eq_none.mp (by decide +kernel)

end EarbudFirmware.Tota
