import EarbudFirmware.Tota.Delivery

/-!
# The trip of a command

The sender decides by the code of a command whether its bytes are encrypted, and always encrypts a
response; the receiver decides by the connect status alone. So a command arrives as it was sent when
the two agree, and when the link takes all of its packets. `app_tota_send` does not tell when a
packet is too large or not taken, and `app_tota_send_data` does not tell when one is not taken.

## Main definitions

* `SendOp.command` — the command that a call sends
* `SendOp.Carried` — the calls whose command is carried
* `Accepted` — calls that return `true`
* `Survive` — every command is delivered once, in order

## Main results

* `SendOp.Carried.carries` — the packets of a call carry its command
* `commands_survive` — carried commands survive
* `loses_command` — a command that is accepted and not sent
-/

namespace EarbudFirmware.Tota

variable {e : Endpoint} {link : Nat → Bool} {ps : List (List UInt8)} {pdata buf : List UInt8}

/-- The code that a call is made with. -/
def SendOp.opCode : SendOp → Nat
  | .send opCode _ => opCode
  | .rsp rspOpCode _ _ => rspOpCode
  | .data opCode _ => opCode

/-- The command that a call sends. -/
def SendOp.command : SendOp → TotaCmd
  | .send opCode pdata => ⟨opCode, pdata.length, pdata⟩
  | .rsp rspOpCode rspStatus pdata =>
    ⟨opTotaResponseToCmd, 3 * 2 + pdata.length, rspParam rspOpCode rspStatus pdata⟩
  | .data opCode buf => ⟨opCode, buf.length, buf⟩

/-- The code is in the command table. -/
def SendOp.Registered (e : Endpoint) (op : SendOp) : Prop :=
  e.handlers.entryIndexFromCmdCode op.opCode ≠ none

instance (e : Endpoint) (op : SendOp) : Decidable (op.Registered e) :=
  inferInstanceAs (Decidable (_ ≠ _))

/-- The calls whose command arrives when they return `true`. While the endpoints are connected only
`app_tota_send` sends commands in the way that the receiver expects, up to the length for which its
buffer has room; after the handshake the commands of the handshake and strings are not encrypted. -/
def SendOp.Carried (e : Endpoint) (link : Nat → Bool) : SendOp → Prop
  | .send opCode pdata =>
    match e.status with
    | .connected => link 0 = true ∧ pdata.length ≤ 640
    | .shakeHanded => opTotaConnConfirm < opCode
    | .disconnected => False
  | .rsp _ _ _ => e.status = .shakeHanded
  | .data _ buf =>
    (∀ n, n * dongleDataFrame < buf.length + totaDataHeadSize → link n = true) ∧
      buf.length ≤ 4124

/-- The calls return `true`, and the link takes these packets. -/
inductive Accepted (e : Endpoint) :
    List (SendOp × (Nat → Bool)) → List (List UInt8) → Prop
  | nil : Accepted e [] []
  | cons {op : SendOp} {link : Nat → Bool} {ps qs : List (List UInt8)}
      {ops : List (SendOp × (Nat → Bool))} (registered : op.Registered e)
      (call : op.call e link = some (true, ps)) (rest : Accepted e ops qs) :
      Accepted e ((op, link) :: ops) (ps ++ qs)

/-- The receiver calls `app_tota_cmd_received` once for every command, in order. -/
def Survive (e : Endpoint) (ops : List (SendOp × (Nat → Bool))) (ds : List (List UInt8)) : Prop :=
  ∃ rx, ds.foldlM (sAppTotaRx e) TotaRx.initial = some rx ∧
    rx.store.calls.map commandOf = ops.map (·.1.command)

/-! ### Packets -/

theorem totaPacket_length : (totaPacket pdata).length = pdata.length + totaPacketVerifySize := by
  simp only [totaPacket, List.length_append, length_leBytes, totaHead, totaTail,
    totaPacketVerifySize, List.length_cons, List.length_nil]
  omega

theorem totaPacket_eq (pdata : List UInt8) :
    totaPacket pdata = (totaHead ++ leBytes 4 pdata.length) ++
      (pdata ++ (leBytes 4 (crc32C 0 pdata).toNat ++ totaTail)) := by
  simp only [totaPacket, List.append_assoc]

theorem packetBuf_totaPacket : packetBuf (totaPacket pdata) = pdata := by
  have hhead : (totaHead ++ leBytes 4 pdata.length).length = totaPacketBufOffset := by
    rw [List.length_append, length_leBytes]
    rfl
  rw [packetBuf, totaPacket_length, Nat.add_sub_cancel, totaPacket_eq, ← hhead, List.drop_left,
    List.take_left]

/-- What `app_tota_tx_pack` puts together is a packet that checks out. -/
theorem isPacket_totaPacket (hpos : 0 < pdata.length)
    (hle : pdata.length + totaPacketVerifySize ≤ maxSppPacketSize) :
    IsPacket (totaPacket pdata) where
  head := by
    rw [totaPacket, List.append_assoc, List.append_assoc, List.append_assoc]
    rfl
  len := by
    have hsplit : leAt (totaPacket pdata) 4 4 = leAt (totaHead ++ (leBytes 4 pdata.length ++
        (pdata ++ (leBytes 4 (crc32C 0 pdata).toNat ++ totaTail)))) (totaHead.length + 0) 4 := by
      rw [totaPacket_eq, List.append_assoc]
      rfl
    rw [hsplit, leAt_append_right, leAt_leBytes, totaPacket_length, Nat.mod_eq_of_lt]
    simp only [maxSppPacketSize] at hle
    omega
  pos := by
    rw [totaPacket_length]
    omega
  le := by rwa [totaPacket_length]

theorem checksOut_totaPacket : ChecksOut (totaPacket pdata) := by
  have hlen : (totaPacket pdata).length = _ := totaPacket_length
  simp only [totaPacketVerifySize] at hlen
  have hfront : (totaHead ++ leBytes 4 pdata.length ++ pdata).length = pdata.length + 8 := by
    rw [List.length_append, List.length_append, length_leBytes]
    simp only [totaHead, List.length_cons, List.length_nil]
    omega
  constructor
  · have htail : (totaPacket pdata).length - 4 = (totaHead ++ leBytes 4 pdata.length ++ pdata ++
        leBytes 4 (crc32C 0 pdata).toNat).length := by
      rw [List.length_append, hfront, length_leBytes, hlen]
      omega
    rw [htail, totaPacket, List.drop_left]
  · have hcrc : (totaPacket pdata).length - 8 =
        (totaHead ++ leBytes 4 pdata.length ++ pdata).length + 0 := by
      rw [hfront, hlen]
      omega
    rw [packetBuf_totaPacket, hcrc, totaPacket, List.append_assoc _ _ totaTail, leAt_append_right,
      leAt_leBytes]
    exact (Nat.mod_eq_of_lt (crc32C 0 pdata).toNat_lt).symm

/-- What the data path writes when it returns `true`. -/
theorem appTotaSendViaDatapath_eq_true {b : Bool} {room : Nat}
    (hlen : pdata.length ≤ sizeofCmdPayload)
    (h : appTotaSendViaDatapath b room pdata = some (true, ps)) :
    b = true ∧ pdata.length + totaPacketVerifySize ≤ maxSppPacketSize ∧
      ps = [totaPacket pdata] := by
  have hlt : pdata.length + totaPacketVerifySize < 0x100000000 := by
    simp only [sizeofCmdPayload, totaPacketVerifySize] at *
    omega
  rw [appTotaSendViaDatapath, totaPacketTotalSize_of_lt hlt] at h
  split_ifs at h with hle hroom hb
  · exact absurd (Prod.mk.inj (Option.some.inj h)).1 (by decide)
  · exact ⟨hb, Nat.le_of_not_lt hle, (Prod.mk.inj (Option.some.inj h)).2.symm⟩
  · exact absurd (Prod.mk.inj (Option.some.inj h)).1 (by decide)

/-- A packet that is small enough is written when the link takes it. -/
theorem appTotaSendViaDatapath_of_le {room : Nat}
    (hle : pdata.length + totaPacketVerifySize ≤ maxSppPacketSize)
    (hroom : pdata.length + totaPacketVerifySize ≤ room) :
    appTotaSendViaDatapath true room pdata = some (true, [totaPacket pdata]) := by
  have hlt : pdata.length + totaPacketVerifySize < 0x100000000 :=
    Nat.lt_of_le_of_lt hle (by decide)
  rw [appTotaSendViaDatapath, totaPacketTotalSize_of_lt hlt, if_neg (by omega),
    if_neg (by omega), if_pos rfl]

/-! ### Encryption -/

section Encryption

variable {n : Nat}

theorem padding_eq_nil (h : n % encryptKeySize = 0) : padding n = [] := if_pos h

theorem padding_congr {m : Nat} (h : n % encryptKeySize = m % encryptKeySize) :
    padding n = padding m := by
  unfold padding
  rw [h]

/-- The receiver undoes the encryption. -/
theorem decoded_totaEncrypt {out : List UInt8} (hs : e.status = .shakeHanded)
    (h : totaEncrypt e.cipher buf = some out) :
    decoded e out = buf ++ padding buf.length ∧
      out.length = (buf ++ padding buf.length).length := by
  have hmod : (buf ++ padding buf.length).length % encryptKeySize = 0 := by
    rw [List.length_append]
    exact length_padding_mod
  rw [totaEncrypt, Option.ite_none_right_eq_some] at h
  obtain rfl := Option.some.inj h.2
  have hlen := e.cipher.length_encrypt _ hmod
  refine ⟨?_, hlen⟩
  rw [decoded, hs]
  dsimp only
  rw [totaDecrypt, hlen, padding_eq_nil hmod, List.append_nil, e.cipher.decrypt_encrypt _ hmod]

theorem totaEncrypt_isSome (h : (buf ++ padding buf.length).length ≤ sizeofCmdPayload) :
    ∃ out, totaEncrypt e.cipher buf = some out :=
  ⟨_, if_pos ⟨h, Nat.le_trans h (by decide)⟩⟩

end Encryption

/-! ### Commands -/

section Calls

variable {cmdCode paramLen n : Nat} {param pad : List UInt8} {op : SendOp}

/-- A command whose bytes are in one packet. -/
theorem carries_singleton (hs : e.status ≠ .disconnected) (hc : cmdCode < 0x10000)
    (hl : paramLen < 0x10000) (heq : paramLen = param.length)
    (hpdata : decoded e pdata = cmdPayload cmdCode paramLen param ++ pad)
    (hfits : (decoded e pdata).length ≤ totaDataCacheBufferSize) :
    Carries e ⟨cmdCode, paramLen, param⟩ [totaPacket pdata] := by
  have hpieces : pieces e [totaPacket pdata] = [cmdPayload cmdCode paramLen param ++ pad] := by
    rw [pieces, List.map_singleton, packetBuf_totaPacket, hpdata]
  have hpos : 0 < (cmdPayload cmdCode paramLen param).length := by
    rw [length_cmdPayload]
    exact Nat.lt_of_lt_of_le (by decide) (Nat.le_add_right _ _)
  refine ⟨hs, ?_, hc, hl, heq, ⟨⟨pad, ?_⟩, fun k hk => ?_⟩, ?_, ?_⟩
  · intro p hp
    rw [List.mem_singleton.1 hp]
    exact checksOut_totaPacket
  · rw [hpieces, List.flatten_singleton]
  · rw [hpieces, List.length_singleton] at hk
    obtain rfl : k = 0 := by omega
    exact hpos
  · rw [hpieces, List.take_one, List.head?_cons, Option.toList_some, List.flatten_singleton,
      List.length_append, length_cmdPayload, Nat.add_assoc]
    exact Nat.le_add_right _ _
  · rw [hpieces, List.flatten_singleton, ← hpdata]
    exact hfits

theorem length_padded_le {m : Nat} (hm : m % encryptKeySize = 0) (hle : buf.length ≤ m) :
    (buf ++ padding buf.length).length ≤ m := by
  have hmod := @length_padding_mod buf.length
  have hlt := @length_padding_lt buf.length
  rw [List.length_append]
  simp only [encryptKeySize] at *
  omega

/-- The packets of a long command: 624 bytes in each but the last. -/
theorem sendDataLoop_spec (hs : e.status = .shakeHanded) {fuel : Nat} (hfuel : buf.length ≤ fuel)
    (hpos : 0 < buf.length)
    (hlink : ∀ m, m * dongleDataFrame < buf.length → link (n + m) = true) :
    ∃ ps, sendDataLoop e link fuel n buf = some (true, ps) ∧
      (∀ p ∈ ps, IsPacket p ∧ ChecksOut p) ∧
      (pieces e ps).flatten = buf ++ padding buf.length ∧ SplitsInto buf (pieces e ps) ∧
      min dongleDataFrame buf.length ≤ ((pieces e ps).take 1).flatten.length := by
  induction fuel generalizing n buf with
  | zero => omega
  | succ fuel ih =>
    have hframe : (buf.take dongleDataFrame).length = min dongleDataFrame buf.length :=
      List.length_take
    have hpadded : (buf.take dongleDataFrame ++
        padding (buf.take dongleDataFrame).length).length ≤ dongleDataFrame :=
      length_padded_le (by decide) (by rw [hframe]; exact Nat.min_le_left _ _)
    obtain ⟨out, hout⟩ := totaEncrypt_isSome (e := e) (Nat.le_trans hpadded (by decide))
    obtain ⟨hdecoded, houtlen⟩ := decoded_totaEncrypt hs hout
    rw [← houtlen] at hpadded
    have houtpos : 0 < out.length := by
      rw [houtlen, List.length_append, hframe]
      simp only [dongleDataFrame]
      omega
    have hle : out.length + totaPacketVerifySize ≤ maxSppPacketSize :=
      Nat.le_trans (Nat.add_le_add_right hpadded _) (by decide)
    have hsent := appTotaSendViaDatapath_of_le hle hle
    have hlink0 : link n = true := hlink 0 (by omega)
    have hpacket := isPacket_totaPacket houtpos hle
    rw [sendDataLoop, if_pos hs, hout]
    simp only [Option.bind_eq_bind, Option.bind_some, hlink0, hsent]
    by_cases hlast : buf.length ≤ dongleDataFrame
    · have htake : buf.take dongleDataFrame = buf := List.take_of_length_le hlast
      have hpieces : pieces e [totaPacket out] = [buf ++ padding buf.length] := by
        rw [pieces, List.map_singleton, packetBuf_totaPacket, hdecoded, htake]
      rw [if_pos hlast]
      refine ⟨_, rfl, ?_, ?_, ⟨⟨padding buf.length, ?_⟩, fun k hk => ?_⟩, ?_⟩
      · intro p hp
        rw [List.mem_singleton.1 hp]
        exact ⟨hpacket, checksOut_totaPacket⟩
      · rw [hpieces, List.flatten_singleton]
      · rw [hpieces, List.flatten_singleton]
      · rw [hpieces, List.length_singleton] at hk
        obtain rfl : k = 0 := by omega
        exact hpos
      · rw [hpieces, List.take_one, List.head?_cons, Option.toList_some, List.flatten_singleton,
          List.length_append]
        omega
    · -- a whole piece is not filled up, and the others are those of the rest
      have hrest : (buf.drop dongleDataFrame).length = buf.length - dongleDataFrame :=
        List.length_drop
      have hdongle : 0 < dongleDataFrame := by decide
      obtain ⟨ps, hloop, hps, hflat, hsplits, -⟩ :=
        ih (n := n + 1) (by omega : (buf.drop dongleDataFrame).length ≤ fuel) (by omega)
          (fun m hm => by
          rw [Nat.add_assoc, Nat.add_comm 1 m]
          refine hlink (m + 1) ?_
          rw [Nat.succ_mul]
          omega)
      have hfull : (buf.take dongleDataFrame).length = dongleDataFrame := by omega
      have hpad : padding (buf.drop dongleDataFrame).length = padding buf.length := by
        rw [hrest]
        refine padding_congr ?_
        simp only [dongleDataFrame, encryptKeySize] at *
        omega
      rw [hfull, padding_eq_nil (by decide), List.append_nil] at hdecoded
      have hpieces : pieces e ([totaPacket out] ++ ps) =
          buf.take dongleDataFrame :: pieces e ps := by
        rw [pieces, List.map_append, List.map_singleton, packetBuf_totaPacket, hdecoded]
        rfl
      rw [if_neg hlast, hloop]
      have hall : (pieces e ([totaPacket out] ++ ps)).flatten = buf ++ padding buf.length := by
        rw [hpieces, List.flatten_cons, hflat, hpad, ← List.append_assoc, List.take_append_drop]
      refine ⟨_, rfl, ?_, hall, ⟨⟨_, hall⟩, fun k hk => ?_⟩, ?_⟩
      · intro p hp
        rcases List.mem_append.1 hp with hp | hp
        · rw [List.mem_singleton.1 hp]
          exact ⟨hpacket, checksOut_totaPacket⟩
        · exact hps p hp
      · rw [hpieces] at hk ⊢
        cases k with
        | zero => exact hpos
        | succ k =>
          have hproper := hsplits.proper k (Nat.lt_of_succ_lt_succ hk)
          rw [List.take_succ_cons, List.flatten_cons, List.length_append, hfull]
          omega
      · rw [hpieces, List.take_succ_cons, List.flatten_cons, List.length_append, hfull]
        omega

/-- A command in one packet that is not encrypted. -/
theorem carries_plain (hs : e.status = .connected) (hc : cmdCode < 0x10000)
    (hle : pdata.length ≤ 640) :
    Carries e ⟨cmdCode, pdata.length, pdata⟩
      [totaPacket (cmdPayload cmdCode pdata.length pdata)] := by
  have hdecoded : decoded e (cmdPayload cmdCode pdata.length pdata) =
      cmdPayload cmdCode pdata.length pdata := by rw [decoded, hs]
  refine carries_singleton (by rw [hs]; decide) hc (by omega) rfl
    (hdecoded.trans (List.append_nil _).symm) ?_
  rw [hdecoded, length_cmdPayload]
  simp only [totaDataHeadSize, totaDataCacheBufferSize]
  omega

/-- A command in one packet that is encrypted. -/
theorem carries_encrypted (hs : e.status = .shakeHanded) (hc : cmdCode < 0x10000)
    (hparam : param.length ≤ sizeofParam)
    (h : (totaEncrypt e.cipher (cmdPayload cmdCode param.length param)).bind
      (appTotaSendViaDatapath (link 0) maxSppPacketSize) = some (true, ps)) :
    Carries e ⟨cmdCode, param.length, param⟩ ps ∧ ∀ p ∈ ps, IsPacket p := by
  obtain ⟨out, hout, hsent⟩ := Option.bind_eq_some_iff.1 h
  obtain ⟨hdecoded, hlen⟩ := decoded_totaEncrypt hs hout
  have hle : out.length ≤ sizeofCmdPayload := by
    rw [totaEncrypt, Option.ite_none_right_eq_some] at hout
    rw [hlen]
    exact hout.1.1
  obtain ⟨-, hfits, rfl⟩ := appTotaSendViaDatapath_eq_true hle hsent
  have hpos : 0 < out.length := by
    rw [hlen, List.length_append, length_cmdPayload]
    simp only [totaDataHeadSize]
    omega
  refine ⟨carries_singleton (by rw [hs]; decide) hc ?_ rfl hdecoded ?_, fun p hp => ?_⟩
  · exact Nat.lt_of_le_of_lt hparam (by decide)
  · rw [hdecoded, ← hlen]
    exact Nat.le_trans hle (by decide)
  · rw [List.mem_singleton.1 hp]
    exact isPacket_totaPacket hpos hfits

/-- A registered code is the code of a command. -/
theorem SendOp.Registered.bounds (h : op.Registered e) :
    opTotaString ≤ op.opCode ∧ op.opCode < opTotaCommandCount := by
  by_contra hno
  refine h (List.findIdx?_eq_none_iff.2 fun c hc => decide_eq_false fun heq => hno ?_)
  rw [← heq]
  exact e.codes c hc

/-- A command that is not encrypted goes out in one packet. -/
theorem plain_packet {b : Bool} (hs : e.status = .connected) (hc : cmdCode < 0x10000)
    (hle : pdata.length ≤ 640)
    (h : appTotaSendViaDatapath b sizeofCmdPayload (cmdPayload cmdCode pdata.length pdata) =
      some (true, ps)) :
    Carries e ⟨cmdCode, pdata.length, pdata⟩ ps ∧ ∀ p ∈ ps, IsPacket p := by
  have hlen : (cmdPayload cmdCode pdata.length pdata).length ≤ sizeofCmdPayload := by
    rw [length_cmdPayload]
    simp only [totaDataHeadSize, sizeofCmdPayload]
    omega
  obtain ⟨-, hfits, rfl⟩ := appTotaSendViaDatapath_eq_true hlen h
  refine ⟨carries_plain hs hc hle, fun p hp => ?_⟩
  rw [List.mem_singleton.1 hp]
  refine isPacket_totaPacket ?_ hfits
  rw [length_cmdPayload]
  exact Nat.lt_of_lt_of_le (by decide) (Nat.le_add_right _ _)

theorem send_carries (h : (SendOp.send cmdCode pdata).Carried e link)
    (hlo : opTotaString ≤ cmdCode) (hhi : cmdCode < opTotaCommandCount)
    (hcall : appTotaSend e link pdata cmdCode = some (true, ps)) :
    Carries e ⟨cmdCode, pdata.length, pdata⟩ ps ∧ ∀ p ∈ ps, IsPacket p := by
  have hcode : cmdCode < 0x10000 := Nat.lt_trans hhi (by decide)
  unfold SendOp.Carried at h
  rw [appTotaSend, if_neg (Nat.ne_of_gt (Nat.lt_of_lt_of_le (by decide) hlo)),
    if_neg (Nat.not_le_of_lt hhi)] at hcall
  split_ifs at hcall with hlong hnone hstring hshake
  · exact absurd (Prod.mk.inj (Option.some.inj hcall)).1 (by decide)
  · exact absurd (Prod.mk.inj (Option.some.inj hcall)).1 (by decide)
  · -- a string is never encrypted
    cases hs : e.status with
    | connected =>
      rw [hs] at h
      exact plain_packet hs hcode h.2 hcall
    | shakeHanded =>
      rw [hs] at h
      have hlt : opTotaConnConfirm < opTotaString := hstring ▸ h
      exact absurd hlt (by decide)
    | disconnected =>
      rw [hs] at h
      exact h.elim
  · exact carries_encrypted hshake.1 hcode (Nat.le_of_not_lt hlong) hcall
  · cases hs : e.status with
    | connected =>
      rw [hs] at h
      have hfits : (cmdPayload cmdCode pdata.length pdata).length + totaPacketVerifySize ≤
          sizeofCmdPayload := by
        rw [length_cmdPayload]
        have := h.2
        simp only [totaDataHeadSize, totaPacketVerifySize, sizeofCmdPayload]
        omega
      have hsent := appTotaSendViaDatapath_of_le (Nat.le_trans hfits (by decide)) hfits
      dsimp only at hcall
      rw [h.1, hsent] at hcall
      obtain rfl : _ = ps := (Prod.mk.inj (Option.some.inj hcall)).2
      exact plain_packet hs hcode h.2 hsent
    | shakeHanded =>
      rw [hs] at h
      exact absurd ⟨hs, h⟩ hshake
    | disconnected =>
      rw [hs] at h
      exact h.elim

theorem rsp_carries {rspOpCode rspStatus : Nat} (hs : e.status = .shakeHanded)
    (hcall : appTotaSendRsp e link rspOpCode rspStatus pdata = some (true, ps)) :
    Carries e (SendOp.rsp rspOpCode rspStatus pdata).command ps ∧ ∀ p ∈ ps, IsPacket p := by
  rw [appTotaSendRsp] at hcall
  split_ifs at hcall with hbad hlong
  · exact absurd (Prod.mk.inj (Option.some.inj hcall)).1 (by decide)
  · exact absurd (Prod.mk.inj (Option.some.inj hcall)).1 (by decide)
  · have hparam : (rspParam rspOpCode rspStatus pdata).length = 3 * 2 + pdata.length := by
      simp only [rspParam, List.length_append, length_leBytes]
    rw [SendOp.command, ← hparam]
    rw [← hparam] at hcall
    refine carries_encrypted hs (by decide) ?_ hcall
    rw [hparam]
    simp only [sizeofRspData, sizeofParam, sizeofCmdPayload] at *
    omega

theorem data_carries (h : (SendOp.data cmdCode buf).Carried e link)
    (hhi : cmdCode < opTotaCommandCount)
    (hcall : appTotaSendData e link cmdCode buf = some (true, ps)) :
    Carries e ⟨cmdCode, buf.length, buf⟩ ps ∧ ∀ p ∈ ps, IsPacket p := by
  obtain ⟨hlink, hle⟩ := h
  have hlen : buf.length < 0x10000 := Nat.lt_of_le_of_lt hle (by decide)
  have hleft : (cmdPayload cmdCode buf.length buf).length = totaDataHeadSize + buf.length :=
    length_cmdPayload
  have hpos : 0 < (cmdPayload cmdCode buf.length buf).length := by
    rw [hleft]
    exact Nat.lt_of_lt_of_le (by decide) (Nat.le_add_right _ _)
  rw [appTotaSendData, Nat.mod_eq_of_lt hlen] at hcall
  split_ifs at hcall with hbad hnone hhuge
  · exact absurd (Prod.mk.inj (Option.some.inj hcall)).1 (by decide)
  · exact absurd (Prod.mk.inj (Option.some.inj hcall)).1 (by decide)
  · by_cases hs : e.status = .shakeHanded
    · have hwrites : ∀ m, m * dongleDataFrame < (cmdPayload cmdCode buf.length buf).length →
          link (0 + m) = true := fun m hm => by
        rw [Nat.zero_add]
        exact hlink m (by omega)
      obtain ⟨qs, hloop, hqs, hflat, hsplits, hfirst⟩ :=
        sendDataLoop_spec hs (Nat.le_refl _) hpos hwrites
      obtain rfl := (Prod.mk.inj (Option.some.inj (hloop.symm.trans hcall))).2
      refine ⟨⟨by rw [hs]; decide, fun p hp => (hqs p hp).2, Nat.lt_trans hhi (by decide), hlen,
        rfl, hsplits, ?_, ?_⟩, fun p hp => (hqs p hp).1⟩
      · refine Nat.le_trans ?_ hfirst
        rw [hleft]
        simp only [dongleDataFrame, totaDataHeadSize]
        omega
      · -- with the padding the bytes still fit into the cache
        rw [hflat]
        refine Nat.le_trans (length_padded_le (m := 4128) (by decide) ?_) (by decide)
        rw [hleft]
        simp only [totaDataHeadSize]
        omega
    · obtain ⟨m, hm⟩ : ∃ m, (cmdPayload cmdCode buf.length buf).length = m + 1 :=
        ⟨_, (Nat.succ_pred_eq_of_pos hpos).symm⟩
      have hloop : sendDataLoop e link (cmdPayload cmdCode buf.length buf).length 0
          (cmdPayload cmdCode buf.length buf) = some (false, []) := by
        rw [hm, sendDataLoop, if_neg hs]
      exact absurd (Prod.mk.inj (Option.some.inj (hloop.symm.trans hcall))).1 (by decide)

/-- The packets of a call that returns `true` carry its command. -/
theorem SendOp.Carried.carries (h : op.Carried e link) (hr : op.Registered e)
    (hcall : op.call e link = some (true, ps)) :
    Carries e op.command ps ∧ ∀ p ∈ ps, IsPacket p := by
  obtain ⟨hlo, hhi⟩ := hr.bounds
  cases op with
  | send opCode pdata => exact send_carries h hlo hhi hcall
  | rsp rspOpCode rspStatus pdata => exact rsp_carries h hcall
  | data opCode buf => exact data_carries h hhi hcall

end Calls

/-! ### Runs -/

/-- The groups of commands whose packets all arrive. -/
theorem Accepted.exists_groups {ops : List (SendOp × (Nat → Bool))} (h : Accepted e ops ps)
    (hcarried : ∀ x ∈ ops, x.1.Carried e x.2) :
    ∃ gs : List Group, gs.flatMap (·.packets) = ps ∧
      (∀ g ∈ gs, g.WellFormed e ∧ ∀ p ∈ g.packets, IsPacket p) ∧ (∀ p ∈ ps, ChecksOut p) ∧
      delivered gs ps.flatten.length = ops.map (·.1.command) := by
  induction h with
  | nil =>
    exact ⟨[], rfl, fun g hg => absurd hg List.not_mem_nil, fun p hp => absurd hp List.not_mem_nil,
      rfl⟩
  | @cons op link ps qs ops hr hcall _ ih =>
    obtain ⟨gs, hgs, hwf, hchecks, hdelivered⟩ := ih fun x hx =>
      hcarried x (List.mem_cons_of_mem _ hx)
    obtain ⟨hcarries, hpackets⟩ := (hcarried _ List.mem_cons_self).carries hr hcall
    refine ⟨⟨op.command, ps, true⟩ :: gs, ?_, ?_, fun p hp => ?_, ?_⟩
    · rw [List.flatMap_cons, hgs]
    · intro g hg
      rcases List.mem_cons.1 hg with rfl | hg
      · exact ⟨hcarries, hpackets⟩
      · exact hwf g hg
    · exact (List.mem_append.1 hp).elim (hcarries.checksOut p) (hchecks p)
    · have hle : ps.flatten.length ≤ (ps ++ qs).flatten.length := by
        rw [List.flatten_append, List.length_append]
        exact Nat.le_add_right _ _
      have hsub : (ps ++ qs).flatten.length - ps.flatten.length = qs.flatten.length := by
        rw [List.flatten_append, List.length_append, Nat.add_sub_cancel_left]
      rw [delivered, if_pos hle, hsub, hdelivered, if_pos rfl, List.map_cons, List.singleton_append]

/-- Where every packet checks out, none fails. -/
theorem failuresLast_of_checksOut (h : ∀ p ∈ ps, ChecksOut p) (n : Nat) (ds : List (List UInt8)) :
    FailuresLast ps n ds := by
  induction ds generalizing n with
  | nil => trivial
  | cons d ds ih =>
    refine ⟨fun p hp => h p ?_, ih _⟩
    have hmem := List.mem_of_mem_drop (List.mem_of_mem_dropLast hp)
    rw [← Framing.complete_append_drop ps (n + d.length)]
    exact List.mem_append_left _ hmem

/-- Carried commands survive the trip, however the stream is cut, as long as no chunk is taken for a
vendor command. -/
theorem commands_survive {ops : List (SendOp × (Nat → Bool))} {ds : List (List UInt8)}
    (h : Accepted e ops ps) (hds : ds.flatten = ps.flatten)
    (hsize : ∀ d ∈ ds, d.length ≤ maxSppPacketSize)
    (hcarried : ∀ x ∈ ops, x.1.Carried e x.2)
    (hvendor : ∀ d ∈ ds, ¬e.TakesAsVendorCmd d) : Survive e ops ds := by
  obtain ⟨gs, hgs, hwf, hchecks, hdelivered⟩ := h.exists_groups hcarried
  obtain ⟨rx, hrun, hcalls⟩ := calls_received (r := []) (fun g hg => (hwf g hg).1)
    (fun g hg => (hwf g hg).2) (by rw [List.append_nil, hgs, hds]) hsize hvendor
    (failuresLast_of_checksOut (by rw [hgs]; exact hchecks) 0 ds)
  exact ⟨rx, hrun, by rw [hcalls, hds, hdelivered]⟩

/-- The command table of the echo test, a cipher, and endpoints that are connected. -/
def echoEndpoint (status : ConnectStatus) : Endpoint where
  handlers := ⟨[⟨0x6101, 0, false⟩], 1, 0, Nat.one_pos⟩
  cipher := {
    encrypt := fun l => l.map (· ^^^ 0x5A)
    decrypt := fun l => l.map (· ^^^ 0x5A)
    length_encrypt := fun _ _ => List.length_map _
    length_decrypt := fun _ _ => List.length_map _
    decrypt_encrypt := fun l _ => by
      rw [List.map_map]
      refine (List.map_congr_left fun b _ => ?_).trans (List.map_id l)
      show b ^^^ 0x5A ^^^ 0x5A = b
      rw [UInt8.xor_assoc, UInt8.xor_self, UInt8.xor_zero] }
  status := status
  cmt008 := true
  codes := by decide

/-- Two bytes are sent while the endpoints are connected, and arrive in two chunks. -/
theorem commands_survive_echo :
    Survive (echoEndpoint .connected) [(.send 0x6101 [1, 2], fun _ => true)]
      [(totaPacket (cmdPayload 0x6101 2 [1, 2])).take 7,
        (totaPacket (cmdPayload 0x6101 2 [1, 2])).drop 7] := by
  refine commands_survive (.cons (by decide) rfl .nil) ?_ ?_ ?_ ?_
  · rw [List.flatten_cons, List.flatten_singleton, List.take_append_drop, List.append_nil,
      List.flatten_singleton]
    rfl
  · decide +kernel
  · intro x hx
    rw [List.mem_singleton.1 hx]
    exact ⟨rfl, by decide⟩
  · decide +kernel

/-- 650 bytes make too large a packet, and none is sent. -/
theorem loses_command :
    ∃ e ops ps ds, Accepted e ops ps ∧ ds.flatten = ps.flatten ∧
      (∀ d ∈ ds, d.length ≤ maxSppPacketSize) ∧ ¬Survive e ops ds := by
  have hcall : SendOp.call (echoEndpoint .connected) (fun _ => true)
      (.send 0x6101 (List.replicate 650 0)) = some (true, []) := by decide +kernel
  refine ⟨echoEndpoint .connected, _, _, [], .cons (by decide) hcall .nil, rfl,
    fun d hd => absurd hd List.not_mem_nil, ?_⟩
  rintro ⟨rx, hrun, hcalls⟩
  obtain rfl := Option.some.inj hrun
  exact absurd hcalls (by decide)

end EarbudFirmware.Tota
