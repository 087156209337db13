import EarbudFirmware.Utils.XmodemStream

/-!
# XMODEM transfers

The first packet has room for 1024 bytes in a buffer of 134, and the padding of the last one is
always 128 bytes long. The stream is delivered if its characters fill exactly one packet, or if
there are no more than two of them, to a host that asked for the CRC and acknowledges the packet and
the end. From the second transfer on, a packet has room for 128 bytes, and streams of full packets,
with no more than two characters behind them, are delivered.

## Main definitions

* `Delivers` — what has been sent and acknowledged is the stream that the calls reported as sent
* `Transmits` — the calls come to their end and deliver the stream
* `HostAcknowledges` — the answers of a host that acknowledges packets, and the end

## Main results

* `transmits_iff` — the transfers that deliver the stream
* `not_transmits` — transfers that do not
* `transmits_again_iff` — the same when a packet has its own room
-/

namespace EarbudFirmware.Xmodem

/-- Numbered packets were acknowledged, of which every try sent the bytes; their payloads are the
stream that was reported as sent, and padding; and then the end was acknowledged. -/
def Delivers (crc : Bool) (calls : List Call) (rets : List Int) (log : List Exchange) : Prop :=
  ∃ payloads padding blocks closing,
    log = blocks.flatten ++ closing ∧
      List.Forall₂ Rounds (packets crc 1 payloads) blocks ∧
      (∀ p ∈ payloads, p.length = bufsz) ∧
      payloads.flatten = reported calls rets ++ List.replicate padding ctrlz ∧
      padding ≤ bufsz ∧ ∀ x ∈ closing, x.bytes = [eot]

/-- The sender before the first transfer. -/
def Sender.initial (crc : Bool) (answers : List UInt8) : Sender :=
  ⟨1, List.replicate sizeofXbuff 0, 1024, crc, 0, [], [], answers⟩

/-- The calls come to their end, with every access inside of `xbuff`, and deliver the stream. -/
def Transmits (crc : Bool) (calls : List Call) (answers : List UInt8) : Prop :=
  ∃ rets s, transfer (.initial crc answers) calls = .ok (rets, s) ∧
    Delivers crc calls rets s.exchanges

/-- The host acknowledges some packets, and the end within ten tries. -/
def HostAcknowledges (count : Nat) (answers : List UInt8) : Prop :=
  ∃ rest, AckedTimes count answers rest ∧ ack ∈ rest.take 10

/-! ### What the exchanges tell -/

section Exchanges

variable {crc : Bool} {n : UInt8} {p q : List UInt8} {log : List Exchange} {x : Exchange}
  {payloads ps : List (List UInt8)} {blocks : List (List Exchange)}

theorem length_packet (hp : p.length = bufsz) :
    (packet crc n p).length = 3 + bufsz + if crc then 2 else 1 := by
  rw [packet, List.length_append, List.length_append, hp, length_checkField]
  rfl

theorem length_packets : (packets crc n payloads).length = payloads.length := by
  induction payloads generalizing n with
  | nil => rfl
  | cons p payloads ih => rw [packets, List.length_cons, ih, List.length_cons]

theorem length_of_mem_packets (h : ∀ p ∈ payloads, p.length = bufsz)
    (hq : q ∈ packets crc n payloads) : q.length = 3 + bufsz + if crc then 2 else 1 := by
  induction payloads generalizing n with
  | nil => cases hq
  | cons p payloads ih =>
    obtain rfl | hq := List.mem_cons.1 hq
    · exact length_packet (h p List.mem_cons_self)
    · exact ih (fun p' hp' => h p' (List.mem_cons_of_mem p hp')) hq

theorem Rounds.bytes_eq (h : Rounds p log) (hx : x ∈ log) : x.bytes = p ∨ x.bytes = [] := by
  obtain ⟨earlier, rfl, hearlier⟩ := h
  obtain hx | hx := List.mem_append.1 hx
  · exact (hearlier x hx).imp_left And.left
  · rw [List.mem_singleton.1 hx]
    exact .inl rfl

theorem Rounds.mem (h : Rounds p log) : ⟨p, ack⟩ ∈ log := by
  obtain ⟨earlier, rfl, -⟩ := h
  exact List.mem_append_right _ List.mem_cons_self

theorem exists_packet_of_mem (h : List.Forall₂ Rounds ps blocks) (hx : x ∈ blocks.flatten) :
    (∃ p ∈ ps, x.bytes = p) ∨ x.bytes = [] := by
  induction h with
  | nil => cases hx
  | cons hround _ ih =>
    rw [List.flatten_cons] at hx
    obtain hx | hx := List.mem_append.1 hx
    · exact (hround.bytes_eq hx).imp_left fun hbytes => ⟨_, List.mem_cons_self, hbytes⟩
    · exact (ih hx).imp_left fun ⟨p, hp, hbytes⟩ => ⟨p, List.mem_cons_of_mem _ hp, hbytes⟩

/-- What is sent has the length of a packet, or it is no packet. -/
theorem Delivers.length_bytes {calls : List Call} {rets : List Int}
    (h : Delivers crc calls rets log) (hx : x ∈ log) :
    x.bytes.length ≤ 1 ∨ x.bytes.length = 3 + bufsz + if crc then 2 else 1 := by
  obtain ⟨payloads, padding, blocks, closing, rfl, hblocks, hlen, -, -, hclosing⟩ := h
  obtain hx | hx := List.mem_append.1 hx
  · obtain ⟨p, hp, hbytes⟩ | hbytes := exists_packet_of_mem hblocks hx
    · rw [hbytes]
      exact .inr (length_of_mem_packets hlen hp)
    · rw [hbytes]
      exact .inl (Nat.zero_le _)
  · rw [hclosing x hx]
    exact .inl le_rfl

/-- An acknowledged packet. -/
def Exchange.acked (x : Exchange) : Bool := x.answer = ack && 1 < x.bytes.length

theorem Rounds.countP (h : Rounds p log) (hp : 1 < p.length) : log.countP (·.acked) = 1 := by
  obtain ⟨earlier, rfl, hearlier⟩ := h
  have hnone : earlier.countP (·.acked) = 0 := by
    rw [List.countP_eq_zero]
    intro x hx
    rcases hearlier x hx with ⟨-, hanswer⟩ | hbytes
    · simp [Exchange.acked, hanswer]
    · simp [Exchange.acked, hbytes]
  rw [List.countP_append, hnone]
  simp [Exchange.acked, hp]

theorem countP_blocks (h : List.Forall₂ Rounds ps blocks) (hps : ∀ p ∈ ps, 1 < p.length) :
    blocks.flatten.countP (·.acked) = ps.length := by
  induction h with
  | nil => rfl
  | cons hround _ ih =>
    rw [List.flatten_cons, List.countP_append, hround.countP (hps _ List.mem_cons_self),
      ih fun p hp => hps p (List.mem_cons_of_mem _ hp), List.length_cons, Nat.add_comm]

theorem countP_closing {closing : List Exchange} (h : ∀ x ∈ closing, x.bytes = [eot]) :
    closing.countP (·.acked) = 0 := by
  rw [List.countP_eq_zero]
  intro x hx
  simp [Exchange.acked, h x hx]

/-- As many packets are acknowledged as there are payloads. -/
theorem Delivers.countP {calls : List Call} {rets : List Int} (h : Delivers crc calls rets log) :
    ∃ padding ≤ bufsz,
      log.countP (·.acked) * bufsz = (reported calls rets).length + padding := by
  obtain ⟨payloads, padding, blocks, closing, rfl, hblocks, hlen, htext, hpad, hclosing⟩ := h
  have hlong : ∀ p ∈ packets crc 1 payloads, 1 < p.length := fun p hp => by
    rw [length_of_mem_packets hlen hp]
    exact Nat.lt_of_lt_of_le (by decide) (Nat.le_add_right _ _)
  have hflatten := congrArg List.length htext
  rw [length_flatten hlen, List.length_append, List.length_replicate] at hflatten
  refine ⟨padding, hpad, ?_⟩
  rw [List.countP_append, countP_blocks hblocks hlong, countP_closing hclosing, length_packets]
  exact hflatten

end Exchanges

/-! ### Transfers -/

section Transfers

variable {crc : Bool} {s s' : Sender} {ret : Int} {rets : List Int} {room : Nat}
  {payloads : List (List UInt8)} {text : List UInt8} {calls : List Call}

/-- The number of characters that a transfer can have, by the room of the first packet. -/
def Fits (room n : Nat) : Prop := if room = bufsz then n % bufsz ≤ 2 else n ≤ 2 ∨ n = bufsz

/-- A transfer to a host that asked for the CRC delivers the stream, if the last packet has no more
characters than its payload. -/
theorem delivers (hno : s.packetNo = 1) (hlog : s.exchanges = []) {s₁ : Sender}
    (htext : stream calls = payloads.flatten ++ text) (h : Collecting true room s₁ text)
    (hp : Progress true s payloads s₁) (hstop : stopXfer s₁ = .ok (ret, s'))
    (hreported : reported calls rets = stream calls) (hle : text.length ≤ bufsz) :
    Delivers true calls rets s'.exchanges := by
  obtain ⟨next, bytes, log, closing, -, -, hexchanges, hrounds, -, hbytes, hclosing⟩ :=
    stopXfer_eq_ok h hstop
  obtain ⟨blocks, hs₁, hblocks⟩ := hp.exchanges
  have hpayload : lastPayload text = text ++ List.replicate (bufsz - text.length) ctrlz := by
    unfold lastPayload
    split_ifs with hlt
    · rfl
    · rw [Nat.sub_eq_zero_of_le (Nat.not_lt.1 hlt), List.replicate_zero, List.append_nil,
        List.take_of_length_le hle]
  have hlast : Rounds (packet true s₁.packetNo (lastPayload text)) log := by
    rw [← hbytes rfl]
    exact hrounds
  refine ⟨payloads ++ [lastPayload text], bufsz - text.length, blocks ++ [log], closing, ?_, ?_, ?_,
    ?_, Nat.sub_le _ _, hclosing⟩
  · rw [hexchanges, hs₁, hlog, List.flatten_append, List.flatten_singleton, List.nil_append,
      List.append_assoc]
  · have hfirst := hblocks rfl
    rw [hno] at hfirst
    rw [packets_append, ← hno, ← hp.packetNo, hno]
    exact List.rel_append hfirst (.cons hlast .nil)
  · intro p hmem
    obtain hmem | hmem := List.mem_append.1 hmem
    · exact hp.length p hmem
    · rw [List.mem_singleton.1 hmem]
      exact length_lastPayload text
  · rw [hreported, htext, List.flatten_append, List.flatten_singleton, hpayload, List.append_assoc]

/-- A packet that is sent to a host that asked for the checksum is one byte too long. -/
theorem Delivers.crc_eq (h : Delivers crc calls rets s'.exchanges) {s₁ : Sender}
    (hc : Collecting crc room s₁ text) (hstop : stopXfer s₁ = .ok (ret, s')) : crc = true := by
  obtain ⟨next, bytes, log, closing, -, -, hexchanges, hrounds, hlen, -, -⟩ :=
    stopXfer_eq_ok hc hstop
  have hmem : (⟨bytes, ack⟩ : Exchange) ∈ s'.exchanges := by
    rw [hexchanges]
    exact List.mem_append_right _ (List.mem_append_left _ hrounds.mem)
  cases crc with
  | true => rfl
  | false =>
    have hbytes := h.length_bytes hmem
    simp only [hlen, bufsz, Bool.false_eq_true, if_false] at hbytes
    omega

/-- A first transfer that ends has sent one packet. -/
theorem Delivers.fits_first (h : Delivers crc calls rets s'.exchanges) (hlog : s.exchanges = [])
    {s₁ : Sender} (hc : Collecting crc 1024 s₁ (stream calls)) (hp : Progress crc s [] s₁)
    (hstop : stopXfer s₁ = .ok (ret, s')) (hreported : reported calls rets = stream calls) :
    (stream calls).length ≤ bufsz := by
  have hcrc := h.crc_eq hc hstop
  subst hcrc
  obtain ⟨next, bytes, log, closing, -, -, hexchanges, hrounds, hlen, -, hclosing⟩ :=
    stopXfer_eq_ok hc hstop
  obtain ⟨blocks, hs₁, hblocks⟩ := hp.exchanges
  have hnil : blocks = [] := by
    cases hblocks rfl
    rfl
  have hlong : 1 < bytes.length := by
    rw [hlen]
    decide
  obtain ⟨padding, -, hcount⟩ := h.countP
  rw [hexchanges, hs₁, hlog, hnil, List.flatten_nil, List.append_nil, List.nil_append,
    List.countP_append, hrounds.countP hlong, countP_closing hclosing, hreported] at hcount
  omega

/-- A sender that begins with packet number 1 delivers the stream to a host that asked for the CRC
and acknowledges its packets, when the number of characters fits. -/
theorem delivers_iff (hroom : room = bufsz ∨ room = 1024) (h : Collecting crc room s [])
    (hno : s.packetNo = 1) (hlog : s.exchanges = []) :
    (∃ rets s', transfer s calls = .ok (rets, s') ∧ Delivers crc calls rets s'.exchanges) ↔
      crc = true ∧ Fits room (stream calls).length ∧
        HostAcknowledges ((stream calls).length / room + 1) s.answers := by
  constructor
  · rintro ⟨rets, s', htransfer, hdelivers⟩
    obtain ⟨payloads, text, s₁, ret, htext, hc, hp, hfirst, hstop, hreported⟩ :=
      transfer_eq_ok hroom h htransfer
    obtain ⟨hcount, hrest⟩ := length_of_progress hroom htext hc hp hfirst
    rw [List.length_nil, Nat.zero_add] at hcount hrest
    refine ⟨hdelivers.crc_eq hc hstop, ?_, ?_⟩
    · have heven := hc.even
      have hfits := hc.fits hstop
      have hlt := hc.lt
      rcases hroom with rfl | rfl
      · rw [Fits, if_pos rfl]
        omega
      · obtain rfl := hfirst rfl
        obtain rfl : stream calls = text := htext
        have hle := hdelivers.fits_first hlog hc hp hstop hreported
        rw [Fits, if_neg (by decide)]
        omega
    · obtain ⟨next, bytes, log, closing, hacked, hend, -⟩ := stopXfer_eq_ok hc hstop
      refine ⟨next, ?_, hend⟩
      rw [← hcount]
      exact ackedTimes_add.2 ⟨_, hp.answers, next, hacked, rfl⟩
  · rintro ⟨rfl, hfits, hans⟩
    have hsmall : room = bufsz ∨ room = 1024 ∧ (stream calls).length ≤ 131 := by
      refine hroom.imp_right fun hroom => ⟨hroom, ?_⟩
      subst hroom
      rw [Fits, if_neg (by decide), bufsz] at hfits
      omega
    have hlast : (stream calls).length % room ≤ 3 ∨ bufsz ≤ (stream calls).length % room := by
      rcases hroom with rfl | rfl
      · rw [Fits, if_pos rfl] at hfits
        omega
      · rw [Fits, if_neg (by decide), bufsz] at hfits
        rw [bufsz]
        omega
    obtain ⟨rets, s', htransfer⟩ := exists_transfer h (by simpa using hsmall) (by simpa using hlast)
      (by rw [List.length_nil, Nat.zero_add]; exact hans)
    obtain ⟨payloads, text, s₁, ret, htext, hc, hp, hfirst, hstop, hreported⟩ :=
      transfer_eq_ok hroom h htransfer
    refine ⟨rets, s', htransfer, delivers hno hlog htext hc hp hstop hreported ?_⟩
    rcases hroom with rfl | rfl
    · exact hc.lt.le
    · obtain rfl := hfirst rfl
      obtain rfl : stream calls = text := htext
      rw [Fits, if_neg (by decide), bufsz] at hfits
      rw [bufsz]
      omega

theorem collecting_initial (crc : Bool) (answers : List UInt8) :
    Collecting crc 1024 (.initial crc answers) [] :=
  ⟨⟨[0, 0, 0], List.replicate 131 0, rfl, rfl⟩, List.length_replicate, rfl, rfl, rfl, rfl, rfl,
    by decide⟩

/-- The first transfer delivers the stream exactly if the host asked for the CRC, the stream has at
most two characters or those of one full packet, and the host acknowledges the packet and the
end. -/
theorem transmits_iff (crc : Bool) (calls : List Call) (answers : List UInt8) :
    Transmits crc calls answers ↔
      crc = true ∧ ((stream calls).length ≤ 2 ∨ (stream calls).length = bufsz) ∧
        HostAcknowledges 1 answers := by
  rw [Transmits, delivers_iff (.inr rfl) (collecting_initial crc answers) rfl rfl, Fits,
    if_neg (by decide)]
  refine and_congr_right fun _ => and_congr_right fun hfits => ?_
  have hcount : (stream calls).length / 1024 = 0 := by
    rw [bufsz] at hfits
    omega
  rw [hcount]
  rfl

/-- The padding behind four bytes goes beyond the buffer; a packet with a checksum is sent with one
byte too many; a host that does not answer is waited for; and one that has not acknowledged a packet
25 times is too. -/
theorem not_transmits :
    ¬Transmits true [⟨[1, 2, 3, 4], false⟩] [ack, ack] ∧ ¬Transmits false [] [ack, ack] ∧
      ¬Transmits true [] [] ∧
      ¬Transmits true [] (List.replicate 25 nak ++ [ack, ack]) := by
  refine ⟨?_, ?_, ?_, ?_⟩
  · rintro ⟨rets, s, htransfer, -⟩
    have houtside : (transfer (.initial true [ack, ack]) [⟨[1, 2, 3, 4], false⟩]).isOk = false := by
      decide +kernel
    rw [htransfer] at houtside
    cases houtside
  · rintro ⟨rets, s, htransfer, hdelivers⟩
    obtain ⟨⟨ret, s₁⟩, hstop, hok⟩ := bind_eq_ok.1 htransfer
    obtain ⟨rfl, rfl⟩ := Prod.mk.inj (Except.ok.inj hok)
    exact absurd (hdelivers.crc_eq (collecting_initial false [ack, ack]) hstop) (by decide)
  · rintro ⟨rets, s, htransfer, -⟩
    have hwaits : (transfer (.initial true []) []).isOk = false := by decide +kernel
    rw [htransfer] at hwaits
    cases hwaits
  · rintro ⟨rets, s, htransfer, -⟩
    have hwaits : (transfer (.initial true (List.replicate 25 nak ++ [ack, ack])) []).isOk =
        false := by decide +kernel
    rw [htransfer] at hwaits
    cases hwaits

/-- From the second transfer on, streams of full packets are delivered, with at most two characters
behind them. -/
theorem transmits_again_iff (crc : Bool) (calls : List Call) (s : Sender)
    (h : Collecting crc bufsz s []) (hno : s.packetNo = 1) (hlog : s.exchanges = []) :
    (∃ rets s', transfer s calls = .ok (rets, s') ∧ Delivers crc calls rets s'.exchanges) ↔
      crc = true ∧ (stream calls).length % bufsz ≤ 2 ∧
        HostAcknowledges ((stream calls).length / bufsz + 1) s.answers := by
  rw [delivers_iff (.inl rfl) h hno hlog, Fits, if_pos rfl]

end Transfers

end EarbudFirmware.Xmodem
