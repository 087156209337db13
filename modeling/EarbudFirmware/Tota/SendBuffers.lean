import EarbudFirmware.Tota.Survival

/-!
# The buffers of a sender

A command is put together in `APP_TOTA_CMD_PAYLOAD_T`, padded there and encrypted into `codeBuf`,
and framed in the buffer where it is. Each of these steps adds bytes, and the length is checked
against the parameter at the beginning and against a packet at the end.

## Main definitions

* `TxWrite` — bytes of a buffer that are written
* `SendOp.writes` — the writes of a call
* `SendOp.frames` — the packets that a call has to send
* `SendsInside` — no write leaves its buffer, and `true` means that every packet was taken
* `SendOp.Fits` — the calls of which this is so

## Main results

* `sendsInside_iff` — the calls that keep the contract
-/

namespace EarbudFirmware.Tota

/-- The buffers in which a command is put together. -/
inductive TxBuffer where
  | payload
  | codeBuf
  deriving DecidableEq

/-- How many bytes a buffer has. -/
def TxBuffer.size : TxBuffer → Nat
  | payload => sizeofCmdPayload
  | codeBuf => maxSppPacketSize

/-- Bytes of a buffer that are written. -/
structure TxWrite where
  buffer : TxBuffer
  offset : Nat
  len : Nat

/-- The write stays inside the buffer. -/
def TxWrite.Inside (w : TxWrite) : Prop := w.offset + w.len ≤ w.buffer.size

instance (w : TxWrite) : Decidable w.Inside := inferInstanceAs (Decidable (_ ≤ _))

/-- The writes of `tota_encrypt`. -/
def encryptWrites (inLen : Nat) : List TxWrite :=
  [⟨.payload, inLen, (padding inLen).length⟩, ⟨.codeBuf, 0, inLen + (padding inLen).length⟩]

/-- The write of `app_tota_tx_pack` to its argument. -/
def packWrites (buffer : TxBuffer) (dataLen : Nat) : List TxWrite :=
  if totaPacketTotalSize dataLen > maxSppPacketSize then []
  else [⟨buffer, 0, totaPacketTotalSize dataLen⟩]

/-- The writes of a command of `n` bytes that is encrypted and sent. -/
def encryptedWrites (n : Nat) : List TxWrite :=
  encryptWrites n ++ packWrites .codeBuf (n + (padding n).length)

/-- The writes of the loop of `app_tota_send_data`, with `sendBytes` bytes in the buffer and
`leftBytes` to send with them. -/
def sendDataWrites (status : ConnectStatus) : (fuel sendBytes leftBytes : Nat) → List TxWrite
  | 0, _, _ => []
  | fuel + 1, sendBytes, leftBytes =>
    let frame := min dongleDataFrame leftBytes
    ⟨.payload, sendBytes, frame - sendBytes⟩ ::
      if status = .shakeHanded then
        encryptedWrites frame ++
          if leftBytes ≤ dongleDataFrame then []
          else sendDataWrites status fuel 0 (leftBytes - dongleDataFrame)
      else []

/-- The writes of a call. With `OP_TOTA_NONE`, they are made in the caller's buffer. -/
def SendOp.writes (e : Endpoint) : SendOp → List TxWrite
  | .send opCode pdata =>
    if opCode = opTotaNone then []
    else if opTotaCommandCount ≤ opCode then []
    else if sizeofParam < pdata.length then []
    else if e.handlers.entryIndexFromCmdCode opCode = none then []
    else
      [⟨.payload, 0, totaDataHeadSize⟩, ⟨.payload, totaDataHeadSize, pdata.length⟩] ++
        if opCode = opTotaString then packWrites .payload (totaDataHeadSize + pdata.length)
        else if e.status = .shakeHanded ∧ opCode > opTotaConnConfirm then
          encryptedWrites (totaDataHeadSize + pdata.length)
        else packWrites .payload (totaDataHeadSize + pdata.length)
  | .rsp rspOpCode _ pdata =>
    if opTotaCommandCount ≤ rspOpCode ∨ rspOpCode < opTotaString then []
    else if sizeofRspData < pdata.length then []
    else
      [⟨.payload, totaDataHeadSize, 3 * 2⟩, ⟨.payload, totaDataHeadSize + 3 * 2, pdata.length⟩,
        ⟨.payload, 0, totaDataHeadSize⟩] ++
        encryptedWrites (totaDataHeadSize + (3 * 2 + pdata.length))
  | .data opCode buf =>
    if opTotaCommandCount ≤ opCode then []
    else if e.handlers.entryIndexFromCmdCode opCode = none then []
    else
      ⟨.payload, 0, totaDataHeadSize⟩ ::
        if 0x100000000 ≤ buf.length + totaDataHeadSize then
          -- the number of bytes left wraps, and then what is left of it without the head
          [⟨.payload, totaDataHeadSize, buf.length⟩]
        else
          sendDataWrites e.status (totaDataHeadSize + buf.length) totaDataHeadSize
            (totaDataHeadSize + buf.length)

/-! ### The packets of a call -/

/-- A packet with encrypted bytes. -/
def encryptedPacket (c : Cipher) (buf : List UInt8) : List UInt8 :=
  totaPacket (c.encrypt (buf ++ padding buf.length))

/-- How many packets `app_tota_send_data` cuts so many bytes into. -/
def dataFrameCnt (n : Nat) : Nat := (n + (dongleDataFrame - 1)) / dongleDataFrame

/-- The packet with the `i`-th `DONGLE_DATA_FRAME` bytes. -/
def dataFrame (c : Cipher) (left : List UInt8) (i : Nat) : List UInt8 :=
  encryptedPacket c ((left.drop (i * dongleDataFrame)).take dongleDataFrame)

/-- The packets that a call has to send. -/
def SendOp.frames (e : Endpoint) : SendOp → List (List UInt8)
  | .send opCode pdata =>
    if opCode = opTotaNone then [totaPacket pdata]
    else if e.status = .shakeHanded ∧ opCode > opTotaConnConfirm then
      [encryptedPacket e.cipher (cmdPayload opCode pdata.length pdata)]
    else [totaPacket (cmdPayload opCode pdata.length pdata)]
  | .rsp rspOpCode rspStatus pdata =>
    [encryptedPacket e.cipher (cmdPayload opTotaResponseToCmd (3 * 2 + pdata.length)
      (rspParam rspOpCode rspStatus pdata))]
  | .data opCode buf =>
    let left := leBytes 2 opCode ++ leBytes 2 (buf.length % 0x10000) ++ buf
    (List.range (dataFrameCnt left.length)).map (dataFrame e.cipher left)

/-- No write leaves its buffer, and `true` is returned only when every packet was taken. -/
structure SendsInside (e : Endpoint) (link : Nat → Bool) (op : SendOp) : Prop where
  inside : ∀ w ∈ op.writes e, w.Inside
  handed : ∀ sent, op.call e link = some (true, sent) → sent = op.frames e

/-- The calls that keep the contract: strings and commands that are not encrypted have room for
their packet where they are put together, and are taken by the link if they are not strings; the
others do not fill the last block; and every packet of a long one is taken. -/
def SendOp.Fits (e : Endpoint) (link : Nat → Bool) : SendOp → Prop
  | .send opCode pdata =>
    (SendOp.send opCode pdata).Registered e → pdata.length ≤ sizeofParam →
      if opCode = opTotaString then pdata.length ≤ 640 ∨ 650 ≤ pdata.length
      else if e.status = .shakeHanded ∧ opCode > opTotaConnConfirm then pdata.length ≤ 652
      else pdata.length ≤ 640 ∧ link 0 = true
  | .rsp rspOpCode _ pdata =>
    opTotaString ≤ rspOpCode → rspOpCode < opTotaCommandCount →
      pdata.length ≤ 646 ∨ sizeofRspData < pdata.length
  | .data opCode buf =>
    (SendOp.data opCode buf).Registered e → buf.length + totaDataHeadSize < 0x100000000 ∧
      (e.status = .shakeHanded →
        ∀ n, n * dongleDataFrame < totaDataHeadSize + buf.length → link n = true)

variable {e : Endpoint} {link : Nat → Bool} {op : SendOp} {buf pdata : List UInt8} {n : Nat}

/-! ### The steps of a call -/

/-- All of the writes stay inside their buffers. -/
def AllInside (ws : List TxWrite) : Prop := ∀ w ∈ ws, w.Inside

@[simp] theorem allInside_nil : AllInside [] := fun _ h => absurd h List.not_mem_nil

@[simp] theorem allInside_cons {w : TxWrite} {ws : List TxWrite} :
    AllInside (w :: ws) ↔ w.Inside ∧ AllInside ws := List.forall_mem_cons

@[simp] theorem allInside_append {ws ws' : List TxWrite} :
    AllInside (ws ++ ws') ↔ AllInside ws ∧ AllInside ws' := List.forall_mem_append

theorem allInside_packWrites {b : TxBuffer} :
    AllInside (packWrites b n) ↔
      totaPacketTotalSize n ≤ b.size ∨ maxSppPacketSize < totaPacketTotalSize n := by
  rw [packWrites]
  split_ifs with hlong
  · exact iff_of_true allInside_nil (.inr hlong)
  · rw [allInside_cons, or_iff_left hlong, TxWrite.Inside, Nat.zero_add]
    exact and_iff_left allInside_nil

/-- Only the last of the blocks that fit `APP_TOTA_CMD_PAYLOAD_T` may be filled up. -/
theorem padded_le_iff : n + (padding n).length ≤ sizeofCmdPayload ↔ n ≤ 656 := by
  have hmod := @length_padding_mod n
  have hlt := @length_padding_lt n
  simp only [encryptKeySize, sizeofCmdPayload] at *
  omega

theorem allInside_encryptedWrites : AllInside (encryptedWrites n) ↔ n ≤ 656 := by
  have hpack : AllInside (packWrites .codeBuf (n + (padding n).length)) :=
    allInside_packWrites.mpr (Nat.lt_or_ge _ _).symm
  rw [encryptedWrites, allInside_append, and_iff_left hpack, encryptWrites, allInside_cons,
    allInside_cons, and_iff_left allInside_nil, TxWrite.Inside, TxWrite.Inside, TxBuffer.size,
    TxBuffer.size, padded_le_iff, Nat.zero_add, ← padded_le_iff]
  exact and_iff_left_of_imp fun h => Nat.le_trans h (by decide)

/-- What the data path writes when it returns `true`. -/
theorem eq_of_viaDatapath {b : Bool} {room : Nat} {sent : List (List UInt8)}
    (h : appTotaSendViaDatapath b room pdata = some (true, sent)) : sent = [totaPacket pdata] := by
  rw [appTotaSendViaDatapath] at h
  split_ifs at h
  · exact absurd (Prod.mk.inj (Option.some.inj h)).1 Bool.false_ne_true
  · exact (Prod.mk.inj (Option.some.inj h)).2.symm
  · exact absurd (Prod.mk.inj (Option.some.inj h)).1 Bool.false_ne_true

/-- The data path, behind the encryption. -/
def encryptedSend (c : Cipher) (b : Bool) (buf : List UInt8) : Option (Bool × List (List UInt8)) :=
  (totaEncrypt c buf).bind (appTotaSendViaDatapath b maxSppPacketSize)

theorem eq_of_encryptedSend {c : Cipher} {b : Bool} {sent : List (List UInt8)}
    (h : encryptedSend c b buf = some (true, sent)) : sent = [encryptedPacket c buf] := by
  obtain ⟨out, hout, hsent⟩ := Option.bind_eq_some_iff.mp h
  rw [totaEncrypt, Option.ite_none_right_eq_some] at hout
  rw [eq_of_viaDatapath hsent, ← Option.some.inj hout.2]
  rfl

/-! ### The loop over a long command -/

theorem allInside_sendDataWrites (status : ConnectStatus) (fuel : Nat) {sendBytes left : Nat}
    (hsend : sendBytes ≤ dongleDataFrame) :
    AllInside (sendDataWrites status fuel sendBytes left) := by
  induction fuel generalizing sendBytes left with
  | zero => exact allInside_nil
  | succ fuel ih =>
    have hframe : min dongleDataFrame left ≤ dongleDataFrame := Nat.min_le_left _ _
    have hcopy : TxWrite.Inside ⟨.payload, sendBytes, min dongleDataFrame left - sendBytes⟩ := by
      simp only [TxWrite.Inside, TxBuffer.size, sizeofCmdPayload, dongleDataFrame] at *
      omega
    refine allInside_cons.mpr ⟨hcopy, ?_⟩
    split_ifs
    · rw [List.append_nil]
      exact allInside_encryptedWrites.mpr (Nat.le_trans hframe (by decide))
    · exact allInside_append.mpr ⟨allInside_encryptedWrites.mpr (Nat.le_trans hframe (by decide)),
        ih (Nat.zero_le _)⟩
    · exact allInside_nil

theorem dataFrameCnt_of_le (hpos : 0 < n) (h : n ≤ dongleDataFrame) : dataFrameCnt n = 1 := by
  simp only [dataFrameCnt, dongleDataFrame] at *
  omega

theorem dataFrameCnt_of_lt (h : dongleDataFrame < n) :
    dataFrameCnt n = dataFrameCnt (n - dongleDataFrame) + 1 := by
  simp only [dataFrameCnt, dongleDataFrame] at *
  omega

theorem lt_dataFrameCnt_iff {i : Nat} : i < dataFrameCnt n ↔ i * dongleDataFrame < n := by
  simp only [dataFrameCnt, dongleDataFrame]
  omega

/-- One packet of a long command. -/
theorem encryptedSend_of_le (c : Cipher) (b : Bool) (h : buf.length ≤ dongleDataFrame) :
    encryptedSend c b buf = some (b, if b then [encryptedPacket c buf] else []) := by
  have hmod : (buf ++ padding buf.length).length % encryptKeySize = 0 := by
    rw [List.length_append]
    exact length_padding_mod
  have hpadded : (buf ++ padding buf.length).length ≤ dongleDataFrame :=
    length_padded_le (by decide) h
  have hlength := c.length_encrypt _ hmod
  have htotal : totaPacketTotalSize (c.encrypt (buf ++ padding buf.length)).length ≤
      maxSppPacketSize := by
    rw [hlength]
    simp only [totaPacketTotalSize, totaPacketVerifySize, maxSppPacketSize, dongleDataFrame] at *
    omega
  rw [encryptedSend, totaEncrypt,
    if_pos ⟨Nat.le_trans hpadded (by decide), Nat.le_trans hpadded (by decide)⟩, Option.bind_some,
    appTotaSendViaDatapath, if_neg (Nat.not_lt.mpr htotal), if_neg (Nat.not_lt.mpr htotal)]
  cases b <;> rfl

/-- A long command is cut into packets, of which the link takes some. -/
theorem sendDataLoop_eq (hs : e.status = .shakeHanded) {fuel : Nat} (hfuel : buf.length ≤ fuel)
    (hpos : 0 < buf.length) (n : Nat) :
    sendDataLoop e link fuel n buf =
      some (true, ((List.range (dataFrameCnt buf.length)).filter fun i => link (n + i)).map
        (dataFrame e.cipher buf)) := by
  induction fuel generalizing n buf with
  | zero => omega
  | succ fuel ih =>
    have hfirst := encryptedSend_of_le e.cipher (link n)
      (List.length_take_le dongleDataFrame buf)
    have hround : sendDataLoop e link (fuel + 1) n buf =
        (encryptedSend e.cipher (link n) (buf.take dongleDataFrame)).bind fun r =>
          if buf.length ≤ dongleDataFrame then some (true, r.2)
          else (sendDataLoop e link fuel (n + 1) (buf.drop dongleDataFrame)).bind fun r' =>
            some (r'.1, r.2 ++ r'.2) := by
      rw [sendDataLoop, if_pos hs, encryptedSend, Option.bind_assoc]
      rfl
    have hhead : dataFrame e.cipher buf 0 =
        encryptedPacket e.cipher (buf.take dongleDataFrame) := by
      rw [dataFrame, Nat.zero_mul, List.drop_zero]
    rw [hround, hfirst, Option.bind_some]
    by_cases hlast : buf.length ≤ dongleDataFrame
    · rw [if_pos hlast, dataFrameCnt_of_le hpos hlast]
      cases hlink : link n <;> simp [hlink, hhead, List.range_succ]
    · rw [if_neg hlast]
      have hdrop : (buf.drop dongleDataFrame).length = buf.length - dongleDataFrame :=
        List.length_drop
      have hdongle : 0 < dongleDataFrame := by decide
      have hshift (i : Nat) : dataFrame e.cipher (buf.drop dongleDataFrame) i =
          dataFrame e.cipher buf (i + 1) := by
        rw [dataFrame, dataFrame, List.drop_drop, Nat.succ_mul, Nat.add_comm]
      rw [ih (by omega) (by omega), Option.bind_some, hdrop,
        dataFrameCnt_of_lt (Nat.not_le.mp hlast), List.range_succ_eq_map]
      cases hlink : link n <;>
        simp [hlink, hhead, List.filter_map, Function.comp_def, hshift, Nat.add_assoc,
          Nat.add_comm 1]

/-! ### The calls -/

/-- The code of a command is not `OP_TOTA_NONE`. -/
theorem SendOp.Registered.codes {opCode : Nat} (h : (SendOp.send opCode pdata).Registered e) :
    opCode ≠ opTotaNone ∧ ¬opTotaCommandCount ≤ opCode := by
  obtain ⟨hlo, hhi⟩ := h.bounds
  refine ⟨fun heq => ?_, Nat.not_le.mpr hhi⟩
  change opTotaString ≤ opCode at hlo
  rw [heq] at hlo
  exact absurd hlo (by decide)

/-- `app_tota_send` of a command, with its writes. -/
theorem send_spec {opCode : Nat} (hr : (SendOp.send opCode pdata).Registered e)
    (hlen : pdata.length ≤ sizeofParam) :
    ((SendOp.send opCode pdata).call e link =
      if opCode = opTotaString then
        appTotaSendViaDatapath (link 0) sizeofCmdPayload (cmdPayload opCode pdata.length pdata)
      else if e.status = .shakeHanded ∧ opCode > opTotaConnConfirm then
        encryptedSend e.cipher (link 0) (cmdPayload opCode pdata.length pdata)
      else
        (appTotaSendViaDatapath (link 0) sizeofCmdPayload
          (cmdPayload opCode pdata.length pdata)).map fun r => (true, r.2)) ∧
    (AllInside ((SendOp.send opCode pdata).writes e) ↔
      if opCode = opTotaString then
        AllInside (packWrites .payload (totaDataHeadSize + pdata.length))
      else if e.status = .shakeHanded ∧ opCode > opTotaConnConfirm then
        AllInside (encryptedWrites (totaDataHeadSize + pdata.length))
      else AllInside (packWrites .payload (totaDataHeadSize + pdata.length))) := by
  obtain ⟨hnone, hcount⟩ := hr.codes
  have hindex : ¬e.handlers.entryIndexFromCmdCode opCode = none := hr
  have hparam : ¬sizeofParam < pdata.length := Nat.not_lt.mpr hlen
  constructor
  · rw [SendOp.call, appTotaSend, if_neg hnone, if_neg hcount, if_neg hparam, if_neg hindex]
    rfl
  · have hcopies : AllInside [⟨.payload, 0, totaDataHeadSize⟩,
        ⟨.payload, totaDataHeadSize, pdata.length⟩] := by
      simp only [allInside_cons, allInside_nil, and_true, TxWrite.Inside, TxBuffer.size,
        totaDataHeadSize, sizeofCmdPayload, sizeofParam] at *
      omega
    rw [SendOp.writes, if_neg hnone, if_neg hcount, if_neg hparam, if_neg hindex,
      allInside_append, and_iff_right hcopies]
    split_ifs <;> exact Iff.rfl

/-- `app_tota_send` of something else writes nowhere, and sends nothing but pure data. -/
theorem send_other {opCode : Nat}
    (h : (SendOp.send opCode pdata).Registered e → sizeofParam < pdata.length) :
    (SendOp.send opCode pdata).writes e = [] ∧
      (opCode ≠ opTotaNone → (SendOp.send opCode pdata).call e link = some (false, [])) := by
  constructor
  · rw [SendOp.writes]
    split_ifs with hnone hcount hparam hindex
    · rfl
    · rfl
    · rfl
    · rfl
    all_goals exact absurd (h hindex) hparam
  · intro hnone
    rw [SendOp.call, appTotaSend, if_neg hnone]
    split_ifs with hcount hparam hindex
    · rfl
    · rfl
    · rfl
    all_goals exact absurd (h hindex) hparam

/-- A command that is not encrypted, in `APP_TOTA_CMD_PAYLOAD_T`. -/
theorem allInside_plain (h : n ≤ sizeofParam) :
    AllInside (packWrites .payload (totaDataHeadSize + n)) ↔ n ≤ 640 ∨ 650 ≤ n := by
  rw [allInside_packWrites]
  simp only [totaPacketTotalSize, totaPacketVerifySize, totaDataHeadSize, TxBuffer.size,
    sizeofCmdPayload, maxSppPacketSize, sizeofParam] at *
  omega

/-- What the data path makes of a command that is not encrypted. -/
theorem viaDatapath_plain {opCode : Nat} {b : Bool} (h : pdata.length ≤ sizeofParam) :
    appTotaSendViaDatapath b sizeofCmdPayload (cmdPayload opCode pdata.length pdata) =
      if pdata.length ≤ 640 then
        some (b, if b then [totaPacket (cmdPayload opCode pdata.length pdata)] else [])
      else if 650 ≤ pdata.length then some (false, [])
      else none := by
  have htotal : totaPacketTotalSize (totaDataHeadSize + pdata.length) = pdata.length + 20 := by
    simp only [totaPacketTotalSize, totaPacketVerifySize, totaDataHeadSize, sizeofParam,
      sizeofCmdPayload] at *
    omega
  have hlong : pdata.length + 20 > maxSppPacketSize ↔ 650 ≤ pdata.length := by
    simp only [maxSppPacketSize]
    omega
  have hroom : sizeofCmdPayload < pdata.length + 20 ↔ ¬pdata.length ≤ 640 := by
    simp only [sizeofCmdPayload]
    omega
  rw [appTotaSendViaDatapath, length_cmdPayload, htotal]
  by_cases hle : pdata.length ≤ 640
  · rw [if_neg fun hp => absurd (hlong.mp hp) (by omega), if_neg (mt hroom.mp (not_not.mpr hle)),
      if_pos hle]
    cases b <;> rfl
  · by_cases hge : 650 ≤ pdata.length
    · rw [if_pos (hlong.mpr hge), if_neg hle, if_pos hge]
    · rw [if_neg (mt hlong.mp hge), if_pos (hroom.mpr hle), if_neg hle, if_neg hge]

/-- A packet that the link does not take is missing. -/
theorem filter_map_eq_iff {p : Nat → Bool} {f : Nat → List UInt8} :
    ((List.range n).filter p).map f = (List.range n).map f ↔ ∀ i < n, p i = true := by
  constructor
  · intro h
    have hlength := congrArg List.length h
    rw [List.length_map, List.length_map] at hlength
    have hall := List.length_filter_eq_length_iff.mp hlength
    exact fun i hi => hall i (List.mem_range.mpr hi)
  · intro h
    rw [List.filter_eq_self.mpr fun i hi => h i (List.mem_range.mp hi)]

theorem send_sendsInside_iff {opCode : Nat} :
    SendsInside e link (.send opCode pdata) ↔ (SendOp.send opCode pdata).Fits e link := by
  by_cases hcommand : (SendOp.send opCode pdata).Registered e ∧ pdata.length ≤ sizeofParam
  · obtain ⟨hr, hlen⟩ := hcommand
    obtain ⟨hcall, hwrites⟩ := @send_spec e link pdata opCode hr hlen
    have hnone := hr.codes.1
    rw [SendOp.Fits, forall_prop_of_true hr, forall_prop_of_true hlen]
    have hframes : (SendOp.send opCode pdata).frames e =
        if e.status = .shakeHanded ∧ opCode > opTotaConnConfirm then
          [encryptedPacket e.cipher (cmdPayload opCode pdata.length pdata)]
        else [totaPacket (cmdPayload opCode pdata.length pdata)] := if_neg hnone
    by_cases hstring : opCode = opTotaString
    · rw [if_pos hstring] at hcall hwrites
      rw [if_neg fun h => absurd (hstring ▸ h.2) (by decide)] at hframes
      rw [if_pos hstring, ← allInside_plain hlen, ← hwrites]
      exact ⟨fun h => h.inside, fun h => ⟨h, fun sent hsent =>
        (eq_of_viaDatapath (hcall.symm.trans hsent)).trans hframes.symm⟩⟩
    · rw [if_neg hstring] at hcall hwrites ⊢
      by_cases hencrypted : e.status = .shakeHanded ∧ opCode > opTotaConnConfirm
      · rw [if_pos hencrypted] at hcall hwrites hframes ⊢
        have hfits : pdata.length ≤ 652 ↔ AllInside ((SendOp.send opCode pdata).writes e) := by
          rw [hwrites, allInside_encryptedWrites, totaDataHeadSize]
          omega
        rw [hfits]
        exact ⟨fun h => h.inside, fun h => ⟨h, fun sent hsent =>
          (eq_of_encryptedSend (hcall.symm.trans hsent)).trans hframes.symm⟩⟩
      · rw [if_neg hencrypted] at hcall hwrites hframes ⊢
        rw [viaDatapath_plain hlen] at hcall
        rw [allInside_plain hlen] at hwrites
        constructor
        · intro h
          rcases hwrites.mp h.inside with hle | hge
          · rw [if_pos hle, Option.map_some] at hcall
            have hsent := (h.handed _ hcall).trans hframes
            refine ⟨hle, ?_⟩
            by_contra hlink
            rw [if_neg hlink] at hsent
            exact absurd hsent.symm (List.cons_ne_nil _ _)
          · -- nothing is sent
            rw [if_neg (by omega), if_pos hge, Option.map_some] at hcall
            exact absurd ((h.handed _ hcall).trans hframes).symm (List.cons_ne_nil _ _)
        · rintro ⟨hle, hlink⟩
          refine ⟨hwrites.mpr (.inl hle), fun sent hsent => ?_⟩
          rw [hcall, if_pos hle, hlink, Option.map_some] at hsent
          exact (Prod.mk.inj (Option.some.inj hsent)).2.symm.trans hframes.symm
  · have hother : (SendOp.send opCode pdata).Registered e → sizeofParam < pdata.length := by
      intro hr
      exact Nat.not_le.mp fun hlen => hcommand ⟨hr, hlen⟩
    obtain ⟨hwrites, hcall⟩ := @send_other e link pdata opCode hother
    refine iff_of_true ⟨?_, fun sent hsent => ?_⟩ fun hr hlen => absurd ⟨hr, hlen⟩ hcommand
    · rw [hwrites]
      exact allInside_nil
    · by_cases hnone : opCode = opTotaNone
      · rw [SendOp.frames, if_pos hnone]
        rw [SendOp.call, appTotaSend, if_pos hnone] at hsent
        exact eq_of_viaDatapath hsent
      · have := hsent.symm.trans (hcall hnone)
        exact absurd (Prod.mk.inj (Option.some.inj this)).1 (by decide)

theorem rsp_sendsInside_iff {rspOpCode rspStatus : Nat} :
    SendsInside e link (.rsp rspOpCode rspStatus pdata) ↔
      (SendOp.rsp rspOpCode rspStatus pdata).Fits e link := by
  rw [SendOp.Fits]
  by_cases hcode : opTotaCommandCount ≤ rspOpCode ∨ rspOpCode < opTotaString
  · refine iff_of_true ⟨?_, fun sent hsent => ?_⟩ fun hlo hhi => by omega
    · rw [SendOp.writes, if_pos hcode]
      exact allInside_nil
    · rw [SendOp.call, appTotaSendRsp, if_pos hcode] at hsent
      exact absurd (Prod.mk.inj (Option.some.inj hsent)).1 Bool.false_ne_true
  · by_cases hlong : sizeofRspData < pdata.length
    · refine iff_of_true ⟨?_, fun sent hsent => ?_⟩ fun _ _ => .inr hlong
      · rw [SendOp.writes, if_neg hcode, if_pos hlong]
        exact allInside_nil
      · rw [SendOp.call, appTotaSendRsp, if_neg hcode, if_pos hlong] at hsent
        exact absurd (Prod.mk.inj (Option.some.inj hsent)).1 Bool.false_ne_true
    · have hcopies : AllInside [⟨.payload, totaDataHeadSize, 3 * 2⟩,
          ⟨.payload, totaDataHeadSize + 3 * 2, pdata.length⟩, ⟨.payload, 0, totaDataHeadSize⟩] := by
        simp only [allInside_cons, allInside_nil, and_true, TxWrite.Inside, TxBuffer.size,
          totaDataHeadSize, sizeofCmdPayload, sizeofRspData] at *
        omega
      have hwrites : AllInside ((SendOp.rsp rspOpCode rspStatus pdata).writes e) ↔
          pdata.length ≤ 646 := by
        rw [SendOp.writes, if_neg hcode, if_neg hlong, allInside_append, and_iff_right hcopies,
          allInside_encryptedWrites, totaDataHeadSize]
        omega
      have hcall : (SendOp.rsp rspOpCode rspStatus pdata).call e link =
          encryptedSend e.cipher (link 0) (cmdPayload opTotaResponseToCmd (3 * 2 + pdata.length)
            (rspParam rspOpCode rspStatus pdata)) := by
        rw [SendOp.call, appTotaSendRsp, if_neg hcode, if_neg hlong]
        rfl
      rw [not_or, Nat.not_le, Nat.not_lt] at hcode
      rw [forall_prop_of_true hcode.2, forall_prop_of_true hcode.1, or_iff_left hlong, ← hwrites]
      exact ⟨fun h => h.inside, fun h => ⟨h, fun sent hsent =>
        eq_of_encryptedSend (hcall.symm.trans hsent)⟩⟩

theorem data_sendsInside_iff {opCode : Nat} :
    SendsInside e link (.data opCode buf) ↔ (SendOp.data opCode buf).Fits e link := by
  rw [SendOp.Fits]
  by_cases hr : (SendOp.data opCode buf).Registered e
  · rw [forall_prop_of_true hr]
    have hcount : ¬opTotaCommandCount ≤ opCode := Nat.not_le.mpr hr.bounds.2
    have hindex : ¬e.handlers.entryIndexFromCmdCode opCode = none := hr
    have hhead : TxWrite.Inside ⟨.payload, 0, totaDataHeadSize⟩ := by
      simp only [TxWrite.Inside, TxBuffer.size, totaDataHeadSize, sizeofCmdPayload]
      omega
    by_cases hwrap : 0x100000000 ≤ buf.length + totaDataHeadSize
    · refine iff_of_false (fun h => ?_) fun h => absurd h.1 (Nat.not_lt.mpr hwrap)
      have hinside := h.inside
      rw [SendOp.writes, if_neg hcount, if_neg hindex, if_pos hwrap] at hinside
      have hcopy := (allInside_cons.mp (allInside_cons.mp hinside).2).1
      simp only [TxWrite.Inside, TxBuffer.size, totaDataHeadSize, sizeofCmdPayload] at *
      omega
    · have hinside : AllInside ((SendOp.data opCode buf).writes e) := by
        rw [SendOp.writes, if_neg hcount, if_neg hindex, if_neg hwrap]
        exact allInside_cons.mpr ⟨hhead, allInside_sendDataWrites _ _ (by decide)⟩
      have hleft : (leBytes 2 opCode ++ leBytes 2 (buf.length % 0x10000) ++ buf).length =
          totaDataHeadSize + buf.length := by
        rw [List.length_append, List.length_append, length_leBytes, length_leBytes]
        rfl
      have hcall : (SendOp.data opCode buf).call e link =
          sendDataLoop e link (totaDataHeadSize + buf.length) 0
            (leBytes 2 opCode ++ leBytes 2 (buf.length % 0x10000) ++ buf) := by
        rw [SendOp.call, appTotaSendData, if_neg hcount, if_neg hindex, if_neg hwrap, ← hleft]
      rw [and_iff_right (Nat.not_le.mp hwrap)]
      have hpos : 0 < totaDataHeadSize + buf.length := Nat.add_pos_left (by decide) _
      by_cases hs : e.status = .shakeHanded
      · rw [sendDataLoop_eq hs hleft.le (hleft ▸ hpos), hleft] at hcall
        rw [forall_prop_of_true hs]
        have hframes : (SendOp.data opCode buf).frames e =
            (List.range (dataFrameCnt (totaDataHeadSize + buf.length))).map (dataFrame e.cipher
              (leBytes 2 opCode ++ leBytes 2 (buf.length % 0x10000) ++ buf)) := by
          rw [SendOp.frames, hleft]
        constructor
        · intro h i hi
          have hsent := (h.handed _ hcall).trans hframes
          have hall := filter_map_eq_iff.mp hsent i (lt_dataFrameCnt_iff.mpr hi)
          rwa [Nat.zero_add] at hall
        · intro h
          refine ⟨hinside, fun sent hsent => ?_⟩
          rw [hframes, ← (Prod.mk.inj (Option.some.inj (hcall.symm.trans hsent))).2]
          refine filter_map_eq_iff.mpr fun i hi => ?_
          rw [Nat.zero_add]
          exact h i (lt_dataFrameCnt_iff.mp hi)
      · refine iff_of_true ⟨hinside, fun sent hsent => ?_⟩ fun h => absurd h hs
        obtain ⟨m, hm⟩ := Nat.exists_eq_succ_of_ne_zero hpos.ne'
        rw [hcall, hm, sendDataLoop, if_neg hs] at hsent
        exact absurd (Prod.mk.inj (Option.some.inj hsent)).1 Bool.false_ne_true
  · have hnone : e.handlers.entryIndexFromCmdCode opCode = none := not_not.mp hr
    refine iff_of_true ⟨?_, fun sent hsent => ?_⟩ fun h => absurd h hr
    · rw [SendOp.writes, if_pos hnone, ite_self]
      exact allInside_nil
    · rw [SendOp.call, appTotaSendData, if_pos hnone, ite_self] at hsent
      exact absurd (Prod.mk.inj (Option.some.inj hsent)).1 Bool.false_ne_true

/-- Whatever is sent in whatever state, the calls that keep to their buffers, and return `true`
only when every packet was taken, are those whose length fits and, where their result does not
depend on the link, those that the link takes. -/
theorem sendsInside_iff (e : Endpoint) (link : Nat → Bool) (op : SendOp) :
    SendsInside e link op ↔ op.Fits e link := by
  cases op with
  | send opCode pdata => exact send_sendsInside_iff
  | rsp rspOpCode rspStatus pdata => exact rsp_sendsInside_iff
  | data opCode buf => exact data_sendsInside_iff

/-- The packet of 645 bytes does not fit the buffer in which the command is put together. The
padding of 653 encrypted bytes does not either. A command that the link does not take is not sent,
and `true` is returned. -/
theorem send_not_inside :
    ¬SendsInside (echoEndpoint .connected) (fun _ => true) (.send 0x6101 (List.replicate 645 0)) ∧
      ¬SendsInside (echoEndpoint .shakeHanded) (fun _ => true)
        (.send 0x6101 (List.replicate 653 0)) ∧
      ¬SendsInside (echoEndpoint .connected) (fun _ => false) (.send 0x6101 []) := by
  refine ⟨fun h => ?_, fun h => ?_, fun h => ?_⟩
  · have hwrite : (⟨.payload, 0, 665⟩ : TxWrite) ∈
        SendOp.writes (echoEndpoint .connected) (.send 0x6101 (List.replicate 645 0)) := by
      rw [SendOp.writes, List.length_replicate]
      exact .tail _ (.tail _ (.head _))
    exact absurd (h.inside _ hwrite) (by decide)
  · have hwrite : (⟨.payload, 657, 15⟩ : TxWrite) ∈
        SendOp.writes (echoEndpoint .shakeHanded) (.send 0x6101 (List.replicate 653 0)) := by
      rw [SendOp.writes, List.length_replicate]
      exact .tail _ (.tail _ (.head _))
    exact absurd (h.inside _ hwrite) (by decide)
  · exact absurd (h.handed [] rfl) (List.cons_ne_nil _ _).symm

end EarbudFirmware.Tota
