import EarbudFirmware.Utils.Xmodem

/-!
# XMODEM packets

A packet is sent until the host acknowledges it. A cancelled packet, and one that the host does not
acknowledge in time, leave the sender waiting for ever.

## Main definitions

* `packet` — the bytes of a packet
* `Rounds` — the exchanges about one packet
* `Acked` — the answers of a host that acknowledges a packet

## Main results

* `sendTries_eq_ok`, `exists_sendTries` — the packets that are sent
* `fillPacket_of_full`, `fillPacket_of_short`, `fillPacket_of_between` — padding and check field
-/

namespace EarbudFirmware.Xmodem

/-- The check field of a payload. -/
def checkField (crc : Bool) (payload : List UInt8) : List UInt8 :=
  if crc then
    [(crc16Remainder payload >>> 8).toUInt8, (crc16Remainder payload).toUInt8]
  else [payload.foldl (· + ·) 0]

/-- The bytes of a packet. -/
def packet (crc : Bool) (packetno : UInt8) (payload : List UInt8) : List UInt8 :=
  [soh, packetno, ~~~packetno] ++ payload ++ checkField crc payload

/-- Packets are numbered one behind the other, modulo 256. -/
def packets (crc : Bool) : UInt8 → List (List UInt8) → List (List UInt8)
  | _, [] => []
  | packetno, payload :: payloads =>
    packet crc packetno payload :: packets crc (packetno + 1) payloads

/-- The exchanges about one packet: every try sends its bytes, and the last one is acknowledged. The
second answer to a try is read without anything being sent. -/
def Rounds (p : List UInt8) (log : List Exchange) : Prop :=
  ∃ earlier, log = earlier ++ [⟨p, ack⟩] ∧
    ∀ x ∈ earlier, x.bytes = p ∧ x.answer ≠ ack ∨ x.bytes = []

/-- The host acknowledges a packet within some tries, and does not cancel it: the answers that it
gives, and those that it gives then. -/
inductive Acked : Nat → List UInt8 → List UInt8 → Prop
  | ack {tries : Nat} {rest : List UInt8} : Acked (tries + 1) (ack :: rest) rest
  | again {tries : Nat} {c : UInt8} {answers rest : List UInt8} : c ≠ Xmodem.ack → c ≠ can →
    Acked tries answers rest → Acked (tries + 1) (c :: answers) rest
  | ignored {tries : Nat} {c : UInt8} {answers rest : List UInt8} : c ≠ can →
    Acked tries answers rest → Acked (tries + 1) (can :: c :: answers) rest

/-! ### One packet -/

section Packet

variable {s s' : Sender} {ret : Int} {tries : Nat} {rest answers p : List UInt8} {c d : UInt8}
  {log : List Exchange} {x : Exchange}

theorem rounds_ack (p : List UInt8) : Rounds p [⟨p, ack⟩] :=
  ⟨[], rfl, fun _ h => absurd h List.not_mem_nil⟩

theorem Rounds.cons (h : Rounds p log) (hx : x.bytes = p ∧ x.answer ≠ ack ∨ x.bytes = []) :
    Rounds p (x :: log) := by
  obtain ⟨earlier, rfl, hearlier⟩ := h
  refine ⟨x :: earlier, rfl, fun y hy => ?_⟩
  obtain rfl | hy := List.mem_cons.1 hy
  · exact hx
  · exact hearlier y hy

/-- The sender after an answer. -/
def Sender.answered (s : Sender) (bytes : List UInt8) (c : UInt8) (answers : List UInt8) : Sender :=
  { s with
    written := []
    exchanges := s.exchanges ++ [⟨bytes, c⟩]
    answers := answers }

theorem Sender.inbyte_of_cons {bytes : List UInt8} (hw : s.written = [])
    (ha : s.answers = c :: answers) :
    (s.outbytes bytes).inbyte = .ok (c, s.answered bytes c answers) := by
  simp only [Sender.inbyte, Sender.outbytes, ha, hw]
  rfl

theorem Sender.inbyte_of_nil {bytes : List UInt8} (ha : s.answers = []) :
    (s.outbytes bytes).inbyte = .error .waits := by
  simp only [Sender.inbyte, Sender.outbytes, ha]

/-- The bytes that a try sends. -/
def Sender.packetBytes (s : Sender) : List UInt8 := s.xbuff.take (bufsz + 4 + 1)

/-- A try, by the first answer. -/
theorem sendTries_of_cons (hw : s.written = []) (ha : s.answers = c :: answers) :
    sendTries (tries + 1) s =
      if c = ack then .ok (0, s.answered s.packetBytes c answers)
      else if c = can then
        match answers with
        | [] => .error .waits
        | d :: answers' =>
          if d = can then .error .waits
          else sendTries tries ((s.answered s.packetBytes c answers).answered [] d answers')
      else sendTries tries (s.answered s.packetBytes c answers) := by
  have hin : (s.outbytes s.packetBytes).inbyte = .ok (c, s.answered s.packetBytes c answers) :=
    s.inbyte_of_cons hw ha
  unfold Sender.packetBytes at hin ⊢
  rw [sendTries, hin]
  dsimp only [bind, Except.bind]
  refine if_congr Iff.rfl rfl (if_congr Iff.rfl ?_ rfl)
  cases answers with
  | nil => rfl
  | cons d answers' => rfl

theorem sendTries_of_nil (ha : s.answers = []) : sendTries tries s = .error .waits := by
  cases tries with
  | zero => rfl
  | succ tries => rw [sendTries, s.inbyte_of_nil ha]; rfl

/-- A packet that is sent has been acknowledged. -/
theorem sendTries_eq_ok (hw : s.written = []) (h : sendTries tries s = .ok (ret, s')) :
    ret = 0 ∧ Acked tries s.answers s'.answers ∧ ∃ log, Rounds s.packetBytes log ∧
      s' = { s with
        exchanges := s.exchanges ++ log
        answers := s'.answers } := by
  induction tries generalizing s with
  | zero => cases h
  | succ tries ih =>
    cases ha : s.answers with
    | nil =>
      rw [sendTries_of_nil ha] at h
      cases h
    | cons c answers =>
      rw [sendTries_of_cons hw ha] at h
      split_ifs at h with hack hcan
      · obtain ⟨rfl, rfl⟩ := Prod.mk.inj (Except.ok.inj h)
        subst hack
        refine ⟨rfl, .ack, _, rounds_ack _, ?_⟩
        rw [Sender.answered, hw]
      · subst hcan
        cases answers with
        | nil => cases h
        | cons d answers' =>
          dsimp only at h
          split_ifs at h with hd
          obtain ⟨hret, hacked, log, hlog, hs'⟩ := ih rfl h
          have hsecond : Rounds s.packetBytes (⟨[], d⟩ :: log) := Rounds.cons hlog (.inr rfl)
          refine ⟨hret, .ignored hd hacked, ⟨s.packetBytes, can⟩ :: ⟨[], d⟩ :: log,
            hsecond.cons (.inl ⟨rfl, hack⟩), ?_⟩
          rw [hs']
          simp [Sender.answered, hw]
      · obtain ⟨hret, hacked, log, hlog, hs'⟩ := ih rfl h
        have hrounds : Rounds s.packetBytes (⟨s.packetBytes, c⟩ :: log) :=
          Rounds.cons hlog (.inl ⟨rfl, hack⟩)
        refine ⟨hret, .again hack hcan hacked, _, hrounds, ?_⟩
        rw [hs']
        simp [Sender.answered, hw]

/-- A packet that the host acknowledges is sent. -/
theorem exists_sendTries (hw : s.written = []) (h : Acked tries s.answers rest) :
    ∃ s', sendTries tries s = .ok (0, s') ∧ s'.answers = rest := by
  generalize ha : s.answers = answers at h
  induction h generalizing s with
  | ack =>
    rw [sendTries_of_cons hw ha, if_pos rfl]
    exact ⟨_, rfl, rfl⟩
  | again hc hcan _ ih =>
    rw [sendTries_of_cons hw ha, if_neg hc, if_neg hcan]
    exact ih rfl rfl
  | ignored hd _ ih =>
    rw [sendTries_of_cons hw ha, if_neg (by decide), if_pos rfl]
    dsimp only
    rw [if_neg hd]
    exact ih rfl rfl

/-- A transfer that ends has been acknowledged. -/
theorem endTries_eq_ok (hw : s.written = []) (h : endTries tries s = .ok (ret, s')) :
    ret = 0 ∧ ack ∈ s.answers.take tries ∧ ∃ closing, (∀ x ∈ closing, x.bytes = [eot]) ∧
      s'.exchanges = s.exchanges ++ closing := by
  induction tries generalizing s with
  | zero => cases h
  | succ tries ih =>
    cases ha : s.answers with
    | nil =>
      rw [endTries, s.inbyte_of_nil ha] at h
      cases h
    | cons c answers =>
      rw [endTries, s.inbyte_of_cons hw ha] at h
      dsimp only [bind, Except.bind] at h
      split_ifs at h with hack
      · obtain ⟨rfl, rfl⟩ := Prod.mk.inj (Except.ok.inj h)
        subst hack
        exact ⟨rfl, List.mem_cons_self, _, by simp, rfl⟩
      · obtain ⟨hret, hmem, closing, hclosing, hs'⟩ := ih rfl h
        refine ⟨hret, List.mem_cons_of_mem _ hmem, ⟨[eot], c⟩ :: closing,
          by simpa using hclosing, ?_⟩
        rw [hs']
        simp [Sender.answered]

theorem exists_endTries (hw : s.written = []) (h : ack ∈ s.answers.take tries) :
    ∃ s', endTries tries s = .ok (0, s') := by
  induction tries generalizing s with
  | zero => cases h
  | succ tries ih =>
    cases ha : s.answers with
    | nil =>
      rw [ha] at h
      cases h
    | cons c answers =>
      rw [ha, List.take_succ_cons] at h
      rw [endTries, s.inbyte_of_cons hw ha]
      dsimp only [bind, Except.bind]
      split_ifs with hack
      · exact ⟨_, rfl⟩
      · exact ih rfl ((List.mem_cons.1 h).resolve_left fun h => hack h.symm)

end Packet

/-! ### The buffer -/

section Buffer

variable {s : Sender} {i len : Nat} {a b c bytes hd p text tl : List UInt8} {crc : Bool} {n : UInt8}

theorem Sender.store_eq (hx : s.xbuff = a ++ b ++ c) (hi : i = a.length)
    (hb : bytes.length = b.length) :
    s.store i bytes = .ok { s with xbuff := a ++ bytes ++ c } := by
  have hle : i + bytes.length ≤ s.xbuff.length := by
    rw [hx, List.length_append, List.length_append]
    omega
  have htake : s.xbuff.take i = a := by
    rw [hx, hi, List.append_assoc, List.take_left]
  have hdrop : s.xbuff.drop (i + bytes.length) = c := by
    rw [hx, hi, hb, ← List.length_append, List.drop_left]
  rw [Sender.store, if_pos hle, htake, hdrop]

theorem length_checkField (crc : Bool) (p : List UInt8) :
    (checkField crc p).length = if crc then 2 else 1 := by
  cases crc <;> rfl

/-- The check field is put behind the payload. -/
theorem fillCheck_eq (hx : s.xbuff = hd ++ p ++ tl) (hhd : hd.length = 3) (hp : p.length = bufsz)
    (htl : tl.length = 3) :
    fillCheck s crc = .ok { s with
      xbuff := hd ++ p ++ (checkField crc p ++ tl.drop (checkField crc p).length) } := by
  have hpayload : (s.xbuff.drop 3).take bufsz = p := by
    rw [hx, ← hhd, List.append_assoc, List.drop_left, ← hp, List.take_left]
  have hlen := length_checkField crc p
  have hstore : s.store (bufsz + 3) (checkField crc p) = .ok { s with
      xbuff := hd ++ p ++ checkField crc p ++ tl.drop (checkField crc p).length } := by
    refine Sender.store_eq (b := tl.take (checkField crc p).length) ?_ ?_ ?_
    · rw [hx, List.append_assoc (hd ++ p), List.take_append_drop]
    · rw [List.length_append, hhd, hp, Nat.add_comm]
    · rw [List.length_take, htl, hlen]
      split_ifs <;> rfl
  rw [List.append_assoc (hd ++ p)] at hstore
  rw [← hstore, fillCheck, hpayload, crc16Ccitt_eq, checkField]
  cases crc <;> rfl

/-- What stands in the buffer is sent as a packet. -/
structure Filled (crc : Bool) (n : UInt8) (p x : List UInt8) : Prop where
  length : x.length = sizeofXbuff
  packet : crc = true → x.take (bufsz + 4 + 1) = packet crc n p

theorem filled_check (hhd : hd = [soh, n, ~~~n]) (hp : p.length = bufsz) (htl : tl.length = 3) :
    Filled crc n p (hd ++ p ++ (checkField crc p ++ tl.drop (checkField crc p).length)) := by
  have hlen := length_checkField crc p
  have hle : (checkField crc p).length ≤ 2 := by
    rw [hlen]
    split_ifs <;> decide
  subst hhd
  constructor
  · rw [List.length_append, List.length_append, List.length_append, List.length_drop, hp, htl]
    simp only [List.length_cons, List.length_nil, bufsz, sizeofXbuff]
    omega
  · rintro rfl
    have hcount : bufsz + 4 + 1 = (packet true n p).length := by
      rw [packet, List.length_append, List.length_append, hp, hlen]
      rfl
    rw [hcount, packet, ← List.append_assoc, List.take_left]

theorem store_header (hx : s.xbuff = hd ++ p ++ tl) (hhd : hd.length = 3) :
    s.store 0 [soh, n, ~~~n] = .ok { s with xbuff := [soh, n, ~~~n] ++ p ++ tl } := by
  have hstore : s.store 0 [soh, n, ~~~n] =
      .ok { s with xbuff := [] ++ [soh, n, ~~~n] ++ (p ++ tl) } := by
    refine Sender.store_eq (b := hd) ?_ rfl hhd.symm
    rw [hx, List.nil_append, List.append_assoc]
  rwa [List.nil_append, ← List.append_assoc] at hstore

/-- A full packet. -/
theorem fillPacket_of_full (hx : s.xbuff = hd ++ p ++ tl) (hhd : hd.length = 3)
    (hp : p.length = bufsz) (htl : tl.length = 3) (hlen : bufsz ≤ len) :
    ∃ x, fillPacket s n len crc = .ok { s with xbuff := x } ∧ Filled crc n p x := by
  refine ⟨_, ?_, filled_check rfl hp htl⟩
  rw [fillPacket, store_header hx hhd]
  dsimp only [bind, Except.bind]
  rw [if_neg (Nat.not_lt.2 hlen)]
  exact fillCheck_eq rfl rfl hp htl

/-- Padding of 128 bytes fits in behind at most three bytes. -/
theorem fillPacket_of_short (hx : s.xbuff = hd ++ text ++ tl) (hhd : hd.length = 3)
    (hsize : s.xbuff.length = sizeofXbuff) (htext : text.length ≤ 3) :
    ∃ x, fillPacket s n text.length crc = .ok { s with xbuff := x } ∧
      Filled crc n (text ++ List.replicate (bufsz - text.length) ctrlz) x := by
  have htl : text.length + tl.length = 131 := by
    rw [hx, List.length_append, List.length_append, hhd, sizeofXbuff] at hsize
    omega
  have hpad : ({ s with xbuff := [soh, n, ~~~n] ++ text ++ tl } : Sender).store (3 + text.length)
      (List.replicate bufsz ctrlz) = .ok { s with
        xbuff := [soh, n, ~~~n] ++ text ++ List.replicate bufsz ctrlz ++ tl.drop bufsz } := by
    refine Sender.store_eq (b := tl.take bufsz) ?_ ?_ ?_
    · rw [List.append_assoc ([soh, n, ~~~n] ++ text), List.take_append_drop]
    · rw [List.length_append]
      rfl
    · rw [List.length_replicate, List.length_take, bufsz]
      omega
  have hsplit : [soh, n, ~~~n] ++ text ++ List.replicate bufsz ctrlz ++ tl.drop bufsz =
      [soh, n, ~~~n] ++ (text ++ List.replicate (bufsz - text.length) ctrlz) ++
        (List.replicate text.length ctrlz ++ tl.drop bufsz) := by
    have hcount : bufsz = bufsz - text.length + text.length := by
      rw [bufsz]
      omega
    conv_lhs => rw [hcount, List.replicate_add, ← hcount]
    simp only [List.append_assoc]
  have hpayload : (text ++ List.replicate (bufsz - text.length) ctrlz).length = bufsz := by
    rw [List.length_append, List.length_replicate, bufsz]
    omega
  have htail : (List.replicate text.length ctrlz ++ tl.drop bufsz).length = 3 := by
    rw [List.length_append, List.length_replicate, List.length_drop, bufsz]
    omega
  have hfilled : Filled crc n _ _ := filled_check rfl hpayload htail
  refine ⟨_, ?_, hfilled⟩
  rw [fillPacket, store_header hx hhd]
  dsimp only [bind, Except.bind]
  rw [if_pos (Nat.lt_of_le_of_lt htext (by decide)), hpad]
  exact fillCheck_eq hsplit rfl hpayload htail

/-- Padding of 128 bytes goes beyond the buffer behind more than three bytes. -/
theorem fillPacket_of_between (hx : s.xbuff = hd ++ text ++ tl) (hhd : hd.length = 3)
    (hsize : s.xbuff.length = sizeofXbuff) (htext : 3 < text.length) (hlt : text.length < bufsz) :
    fillPacket s n text.length crc = .error .outside := by
  have hout : ({ s with xbuff := [soh, n, ~~~n] ++ text ++ tl } : Sender).store (3 + text.length)
      (List.replicate bufsz ctrlz) = .error .outside := by
    refine if_neg ?_
    rw [hx, List.length_append, List.length_append, hhd, sizeofXbuff] at hsize
    rw [List.length_replicate, List.length_append, List.length_append]
    simp only [List.length_cons, List.length_nil, bufsz]
    omega
  rw [fillPacket, store_header hx hhd]
  dsimp only [bind, Except.bind]
  rw [if_pos hlt, hout]

end Buffer

end EarbudFirmware.Xmodem
