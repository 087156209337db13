import EarbudFirmware.Utils.XmodemPacket

/-!
# XMODEM streams

The characters of a stream are collected, and sent in full packets; the last packet gets its padding
when the transfer is stopped. The first packet has room for 1024 bytes in a buffer of 134.

## Main definitions

* `reported`, `stream` — what calls report as sent, and what they transmit
* `AckedTimes` — the answers of a host that acknowledges packets
* `Collecting`, `Progress` — the characters in the buffer, and the packets that were acknowledged

## Main results

* `sendLoop_eq_ok`, `exists_sendLoop` — the loop of a call
* `transfer_eq_ok`, `exists_transfer` — calls, and the end of the transfer
-/

namespace EarbudFirmware.Xmodem

/-- The characters of a call. -/
def Call.text (c : Call) : List UInt8 := filledOnePayload c.data c.ascii

/-- The calls that were reported as sent. -/
def reported (calls : List Call) (rets : List Int) : List UInt8 :=
  (calls.zip rets).flatMap fun c => if 0 ≤ c.2 then c.1.text else []

/-- The host acknowledges some packets. -/
def AckedTimes : Nat → List UInt8 → List UInt8 → Prop
  | 0, answers, rest => answers = rest
  | count + 1, answers, rest => ∃ next, Acked maxRetrans answers next ∧ AckedTimes count next rest

/-- What a call transmits: nothing when it is refused. -/
def Call.accepted (c : Call) : List UInt8 :=
  if c.ascii = false ∧ c.data.length % 2 ≠ 0 then [] else c.text

/-- What the calls transmit. -/
def stream (calls : List Call) : List UInt8 := calls.flatMap (·.accepted)

/-! ### The loop -/

section Loop

variable {crc ascii : Bool} {s s' : Sender} {ret : Int} {room fuel : Nat}
  {data text p rest : List UInt8} {payloads : List (List UInt8)}

theorem filledOnePayload_append (data data' : List UInt8) (ascii : Bool) :
    filledOnePayload (data ++ data') ascii =
      filledOnePayload data ascii ++ filledOnePayload data' ascii := by
  cases ascii with
  | false => rfl
  | true => exact List.flatMap_append

theorem length_filledOnePayload (data : List UInt8) (ascii : Bool) :
    (filledOnePayload data ascii).length = data.length * if ascii then 2 else 1 := by
  cases ascii with
  | false => exact (Nat.mul_one _).symm
  | true => simp [filledOnePayload, List.length_flatMap]

/-- The text that is collected for the next packet. -/
structure Collecting (crc : Bool) (room : Nat) (s : Sender) (text : List UInt8) : Prop where
  buffer : ∃ hd tl, s.xbuff = hd ++ text ++ tl ∧ hd.length = 3
  length : s.xbuff.length = sizeofXbuff
  packetIdx : s.packetIdx = text.length
  packetSize : s.packetSize = room
  crcEnabled : s.crcEnabled = crc
  written : s.written = []
  even : text.length % 2 = 0
  lt : text.length < room

/-- Packets have been acknowledged since the state `s`. -/
structure Progress (crc : Bool) (s : Sender) (payloads : List (List UInt8)) (s' : Sender) :
    Prop where
  packetNo : s'.packetNo = s.packetNo + .ofNat payloads.length
  length : ∀ p ∈ payloads, p.length = bufsz
  answers : AckedTimes payloads.length s.answers s'.answers
  exchanges : ∃ blocks, s'.exchanges = s.exchanges ++ blocks.flatten ∧
    (crc = true → List.Forall₂ Rounds (packets crc s.packetNo payloads) blocks)

theorem Progress.refl (hno : s'.packetNo = s.packetNo) (ha : s'.answers = s.answers)
    (he : s'.exchanges = s.exchanges) : Progress crc s [] s' where
  packetNo := by
    rw [hno]
    exact (UInt8.add_zero _).symm
  length := nofun
  answers := ha.symm
  exchanges := ⟨[], by simpa using he, fun _ => .nil⟩

theorem packets_append (n : UInt8) (payloads payloads' : List (List UInt8)) :
    packets crc n (payloads ++ payloads') =
      packets crc n payloads ++ packets crc (n + .ofNat payloads.length) payloads' := by
  induction payloads generalizing n with
  | nil => exact congrArg (packets crc · payloads') (UInt8.add_zero n).symm
  | cons p payloads ih =>
    have hno : n + 1 + .ofNat payloads.length = n + .ofNat (payloads.length + 1) := by
      rw [UInt8.ofNat_add, UInt8.add_comm (.ofNat payloads.length), ← UInt8.add_assoc]
      rfl
    rw [List.cons_append, packets, packets, ih, hno]
    rfl

theorem ackedTimes_add {m n : Nat} {answers : List UInt8} :
    AckedTimes (m + n) answers rest ↔
      ∃ next, AckedTimes m answers next ∧ AckedTimes n next rest := by
  induction m generalizing answers with
  | zero => simp [AckedTimes]
  | succ m ih =>
    rw [Nat.succ_add]
    simp only [AckedTimes, ih]
    constructor
    · rintro ⟨first, hfirst, next, hnext, hrest⟩
      exact ⟨next, ⟨first, hfirst, hnext⟩, hrest⟩
    · rintro ⟨next, ⟨first, hfirst, hnext⟩, hrest⟩
      exact ⟨first, hfirst, next, hnext, hrest⟩

theorem Progress.trans {s'' : Sender} {payloads' : List (List UInt8)}
    (h : Progress crc s payloads s') (h' : Progress crc s' payloads' s'') :
    Progress crc s (payloads ++ payloads') s'' where
  packetNo := by
    rw [h'.packetNo, h.packetNo, List.length_append, UInt8.ofNat_add, UInt8.add_assoc]
  length p hp := (List.mem_append.1 hp).elim (h.length p) (h'.length p)
  answers := by
    rw [List.length_append]
    exact ackedTimes_add.2 ⟨_, h.answers, h'.answers⟩
  exchanges := by
    obtain ⟨blocks, hlog, hblocks⟩ := h.exchanges
    obtain ⟨blocks', hlog', hblocks'⟩ := h'.exchanges
    refine ⟨blocks ++ blocks', ?_, fun hcrc => ?_⟩
    · rw [hlog', hlog, List.flatten_append, List.append_assoc]
    · rw [packets_append, ← h.packetNo]
      exact List.rel_append (hblocks hcrc) (hblocks' hcrc)

theorem sendOnePacket_eq_ok (hw : s.written = []) (h : sendOnePacket s = .ok (ret, s')) :
    ret = 0 ∧ Acked maxRetrans s.answers s'.answers ∧ ∃ log, Rounds s.packetBytes log ∧
      s' = { s with
        packetSize := bufsz
        exchanges := s.exchanges ++ log
        answers := s'.answers } :=
  sendTries_eq_ok (s := { s with packetSize := bufsz }) hw h

theorem exists_sendOnePacket (hw : s.written = []) (h : Acked maxRetrans s.answers rest) :
    ∃ s', sendOnePacket s = .ok (0, s') ∧ s'.answers = rest := by
  have hw' : ({ s with packetSize := bufsz } : Sender).written = [] := hw
  exact exists_sendTries hw' h

/-- The sender begins to collect the next packet. -/
def Sender.next (s : Sender) : Sender :=
  { s with
    packetNo := s.packetNo + 1
    xbuff := List.replicate sizeofXbuff 0
    packetIdx := 0 }

/-- A full packet is acknowledged. -/
theorem progress_next {x : List UInt8} (hw : s.written = []) (hcrc : s.crcEnabled = crc)
    (hx : Filled crc s.packetNo p x) (hp : p.length = bufsz)
    (hok : sendOnePacket { s with xbuff := x } = .ok (ret, s')) :
    ret = 0 ∧ Collecting crc bufsz s'.next [] ∧ Progress crc s [p] s'.next := by
  obtain ⟨hret, hacked, log, hlog, hs'⟩ := sendOnePacket_eq_ok (s := { s with xbuff := x }) hw hok
  have hno : s'.packetNo = s.packetNo := by rw [hs']
  have hexchanges : s'.exchanges = s.exchanges ++ log := by rw [hs']
  refine ⟨hret, ⟨⟨[0, 0, 0], List.replicate 131 0, rfl, rfl⟩, List.length_replicate, rfl, ?_, ?_,
    ?_, rfl, by decide⟩, ?_, by simpa using hp, ⟨_, hacked, rfl⟩, [log], ?_, ?_⟩
  · change s'.packetSize = bufsz
    rw [hs']
  · change s'.crcEnabled = crc
    rw [hs']
    exact hcrc
  · change s'.written = []
    rw [hs']
    exact hw
  · rw [Sender.next, hno]
    rfl
  · rw [Sender.next, hexchanges, List.flatten_singleton]
  · intro htrue
    have hbytes : Rounds (packet crc s.packetNo p) log := by
      rw [← hx.packet htrue]
      exact hlog
    exact .cons hbytes .nil

theorem Collecting.le (h : Collecting crc room s text) : text.length ≤ 131 := by
  obtain ⟨hd, tl, hx, hhd⟩ := h.buffer
  have hlen := h.length
  rw [hx, List.length_append, List.length_append, hhd, sizeofXbuff] at hlen
  omega

/-- Characters that are stored in the buffer. -/
theorem Collecting.store (h : Collecting crc room s text) (hle : text.length + p.length ≤ 131) :
    ∃ hd tl, s.store (3 + s.packetIdx) p = .ok { s with xbuff := hd ++ (text ++ p) ++ tl } ∧
      hd.length = 3 ∧ (hd ++ (text ++ p) ++ tl).length = sizeofXbuff := by
  obtain ⟨hd, tl, hx, hhd⟩ := h.buffer
  have hlen := h.length
  rw [hx, List.length_append, List.length_append, hhd, sizeofXbuff] at hlen
  refine ⟨hd, tl.drop p.length, ?_, hhd, ?_⟩
  · rw [← List.append_assoc hd]
    refine Sender.store_eq (b := tl.take p.length) ?_ ?_ ?_
    · rw [hx, List.append_assoc (hd ++ text), List.take_append_drop]
    · rw [h.packetIdx, List.length_append, hhd]
    · rw [List.length_take]
      omega
  · simp only [List.length_append, List.length_drop, hhd, sizeofXbuff]
    omega

theorem Collecting.store_outside (h : Collecting crc room s text)
    (hlt : 131 < text.length + p.length) :
    s.store (3 + s.packetIdx) p = .error .outside := by
  refine if_neg ?_
  rw [h.packetIdx, h.length, sizeofXbuff]
  omega

/-- How much of the data a round of the loop takes. -/
def xfer (ascii : Bool) (s : Sender) (data : List UInt8) : Nat :=
  min data.length (if ascii then (s.packetSize - s.packetIdx) / 2 else s.packetSize - s.packetIdx)

/-- The characters that a round of the loop takes. -/
def taken (ascii : Bool) (s : Sender) (data : List UInt8) : List UInt8 :=
  filledOnePayload (data.take (xfer ascii s data)) ascii

/-- What a round of the loop takes: characters for the packet, and all of them if they do not fill
it. -/
structure Piece (ascii : Bool) (room : Nat) (text data p left : List UInt8) : Prop where
  split : filledOnePayload data ascii = p ++ filledOnePayload left ascii
  even : p.length % 2 = 0
  le : text.length + p.length ≤ room
  rest : text.length + p.length < room → left = []
  left_even : ascii = false → left.length % 2 = 0
  left_lt : left.length < data.length

theorem Collecting.piece (h : Collecting crc room s text) (hroom : room % 2 = 0) (hdata : data ≠ [])
    (heven : ascii = false → data.length % 2 = 0) :
    Piece ascii room text data (taken ascii s data)
      (data.drop (xfer ascii s data)) := by
  have hpos := List.length_pos_of_ne_nil hdata
  have htext := h.even
  have hlt := h.lt
  have hxfer : xfer ascii s data =
      min data.length (if ascii then (room - text.length) / 2 else room - text.length) := by
    rw [xfer, h.packetSize, h.packetIdx]
  have hlen : (taken ascii s data).length = _ :=
    length_filledOnePayload (data.take (xfer ascii s data)) ascii
  rw [List.length_take] at hlen
  cases ascii with
  | false =>
    have hdataeven := heven rfl
    simp only [Bool.false_eq_true, if_false] at hxfer hlen
    refine ⟨?_, ?_, ?_, fun hrest => List.drop_eq_nil_of_le ?_, fun _ => ?_, ?_⟩
    · rw [taken, ← filledOnePayload_append, List.take_append_drop]
    · omega
    · omega
    · omega
    · rw [List.length_drop]
      omega
    · rw [List.length_drop]
      omega
  | true =>
    simp only [if_true] at hxfer hlen
    refine ⟨?_, ?_, ?_, fun hrest => List.drop_eq_nil_of_le ?_, nofun, ?_⟩
    · rw [taken, ← filledOnePayload_append, List.take_append_drop]
    · omega
    · omega
    · omega
    · rw [List.length_drop]
      omega

theorem sendLoop_succ (hdata : data ≠ []) :
    sendLoop ascii (fuel + 1) data s = (do
      let filled := taken ascii s data
      let s₁ ← s.store (3 + s.packetIdx) filled
      if filled.length + s₁.packetIdx = s₁.packetSize then
        let s₂ ← fillPacket s₁ s₁.packetNo 1024 s₁.crcEnabled
        let (ret, s₃) ← sendOnePacket s₂
        let s₄ := if ret = 0 then { s₃ with packetNo := s₃.packetNo + 1 } else s₃
        sendLoop ascii fuel (data.drop (xfer ascii s data))
          { s₄ with
            xbuff := List.replicate sizeofXbuff 0
            packetIdx := 0 }
      else
        sendLoop ascii fuel (data.drop (xfer ascii s data))
          { s₁ with packetIdx := s₁.packetIdx + filled.length }) := by
  rw [sendLoop]
  · rfl
  · exact hdata

/-- A round of the loop whose characters lie outside of the buffer. -/
theorem sendLoop_of_outside (h : Collecting crc room s text) (hdata : data ≠ [])
    (hlt : 131 < text.length + (taken ascii s data).length) :
    sendLoop ascii (fuel + 1) data s = .error .outside := by
  rw [sendLoop_succ hdata]
  dsimp only
  rw [h.store_outside hlt]
  rfl

/-- A round of the loop that does not fill the packet. -/
theorem sendLoop_of_lt (fuel : Nat) (h : Collecting crc room s text) (hdata : data ≠ [])
    (hroom : room % 2 = 0)
    (heven : ascii = false → data.length % 2 = 0)
    (hle : text.length + (taken ascii s data).length ≤ 131)
    (hlt : text.length + (taken ascii s data).length < room) :
    ∃ s₁,
      sendLoop ascii (fuel + 1) data s = sendLoop ascii fuel (data.drop (xfer ascii s data)) s₁ ∧
      Collecting crc room s₁ (text ++ taken ascii s data) ∧
      Progress crc s [] s₁ := by
  have hpiece := h.piece hroom hdata heven
  rw [sendLoop_succ hdata]
  generalize taken ascii s data = p at *
  obtain ⟨hd, tl, hstore, hhd, hlen⟩ := h.store hle
  refine ⟨{ s with
    xbuff := hd ++ (text ++ p) ++ tl
    packetIdx := s.packetIdx + p.length }, ?_,
    ⟨⟨hd, tl, rfl, hhd⟩, hlen, ?_, h.packetSize, h.crcEnabled, h.written, ?_, ?_⟩,
    .refl rfl rfl rfl⟩
  · have hne : ¬p.length + s.packetIdx = s.packetSize := by
      rw [h.packetIdx, h.packetSize]
      omega
    dsimp only
    rw [hstore]
    dsimp only [bind, Except.bind]
    rw [if_neg hne]
  · rw [List.length_append, h.packetIdx]
  · have hp := hpiece.even
    have ht := h.even
    rw [List.length_append]
    omega
  · rw [List.length_append]
    exact hlt

/-- A round of the loop that fills the packet. -/
theorem sendLoop_of_full (fuel : Nat) (h : Collecting crc bufsz s text) (hdata : data ≠ [])
    (hfull : text.length + (taken ascii s data).length = bufsz) :
    ∃ x, Filled crc s.packetNo (text ++ taken ascii s data) x ∧
      sendLoop ascii (fuel + 1) data s = (do
        let (ret, s₃) ← sendOnePacket { s with xbuff := x }
        let s₄ := if ret = 0 then { s₃ with packetNo := s₃.packetNo + 1 } else s₃
        sendLoop ascii fuel (data.drop (xfer ascii s data))
          { s₄ with
            xbuff := List.replicate sizeofXbuff 0
            packetIdx := 0 }) := by
  rw [sendLoop_succ hdata]
  generalize taken ascii s data = p at *
  obtain ⟨hd, tl, hstore, hhd, hlen⟩ := h.store (hfull.le.trans (by decide))
  have hp : (text ++ p).length = bufsz := by rw [List.length_append, hfull]
  have htl : tl.length = 3 := by
    rw [List.length_append, List.length_append, hhd, hp, sizeofXbuff, bufsz] at hlen
    omega
  obtain ⟨x, hx, hfilled⟩ := @fillPacket_of_full { s with xbuff := hd ++ (text ++ p) ++ tl } 1024 hd
    (text ++ p) tl s.crcEnabled s.packetNo rfl hhd hp htl (by decide)
  refine ⟨x, h.crcEnabled ▸ hfilled, ?_⟩
  have hfilled : p.length + s.packetIdx = s.packetSize := by
    rw [h.packetIdx, h.packetSize, Nat.add_comm]
    exact hfull
  dsimp only
  rw [hstore]
  dsimp only [bind, Except.bind]
  rw [if_pos hfilled, hx]

theorem bind_eq_ok {α β : Type} {x : Except Stuck α} {f : α → Except Stuck β} {b : β} :
    x >>= f = .ok b ↔ ∃ a, x = .ok a ∧ f a = .ok b := by
  cases x with
  | error e => simp [bind, Except.bind]
  | ok a => simp [bind, Except.bind]

/-- What the loop has sent when it ends, and what it has collected. The first packet is never
full. -/
theorem sendLoop_eq_ok (hroom : room = bufsz ∨ room = 1024) (h : Collecting crc room s text)
    (heven : ascii = false → data.length % 2 = 0) (hok : sendLoop ascii fuel data s = .ok s') :
    ∃ payloads text', text ++ filledOnePayload data ascii = payloads.flatten ++ text' ∧
      Collecting crc room s' text' ∧ Progress crc s payloads s' ∧
      (room = 1024 → payloads = []) := by
  induction fuel generalizing data s text with
  | zero =>
    cases data with
    | nil =>
      obtain rfl := Except.ok.inj hok
      exact ⟨[], text, by cases ascii <;> simp [filledOnePayload], h, .refl rfl rfl rfl,
        fun _ => rfl⟩
    | cons c data => cases hok
  | succ fuel ih =>
    by_cases hdata : data = []
    · subst hdata
      obtain rfl := Except.ok.inj hok
      exact ⟨[], text, by cases ascii <;> simp [filledOnePayload], h, .refl rfl rfl rfl,
        fun _ => rfl⟩
    have hpiece := h.piece (by rcases hroom with rfl | rfl <;> rfl) hdata heven
    by_cases hle : text.length + (taken ascii s data).length ≤ 131
    · by_cases hlt : text.length +
          (taken ascii s data).length < room
      · obtain ⟨s₁, hs₁, hcollecting, hprogress⟩ := sendLoop_of_lt fuel h hdata
          (by rcases hroom with rfl | rfl <;> rfl) heven hle hlt
        rw [hs₁] at hok
        obtain ⟨payloads, text', htext, hcollecting', hprogress', hfirst⟩ :=
          ih hcollecting hpiece.left_even hok
        refine ⟨payloads, text', ?_, hcollecting', hprogress.trans hprogress', hfirst⟩
        rw [hpiece.split, ← List.append_assoc, htext]
      · have hroom' : room = bufsz := hroom.resolve_right fun hroom => by omega
        subst hroom'
        obtain ⟨x, hx, hs₁⟩ := sendLoop_of_full fuel h hdata
          (Nat.le_antisymm hpiece.le (Nat.not_lt.1 hlt))
        rw [hs₁] at hok
        obtain ⟨⟨ret, s₃⟩, hsent, hok⟩ := bind_eq_ok.1 hok
        obtain ⟨rfl, hcollecting, hprogress⟩ := progress_next h.written h.crcEnabled hx
          (by rw [List.length_append]; exact Nat.le_antisymm hpiece.le (Nat.not_lt.1 hlt)) hsent
        obtain ⟨payloads, text', htext, hcollecting', hprogress', hfirst⟩ :=
          ih hcollecting hpiece.left_even hok
        refine ⟨_ :: payloads, text', ?_, hcollecting', hprogress.trans hprogress',
          fun hroom => absurd hroom (by decide)⟩
        rw [hpiece.split, List.flatten_cons, ← List.append_assoc, List.append_assoc (text ++ _),
          ← htext]
        rfl
    · rw [sendLoop_of_outside h hdata (Nat.not_le.1 hle)] at hok
      cases hok

/-- The loop ends when the characters have their place and the host acknowledges the packets that
get full. -/
theorem exists_sendLoop (h : Collecting crc room s text)
    (heven : ascii = false → data.length % 2 = 0) (hfuel : data.length ≤ fuel)
    (hroom : room = bufsz ∨
      room = 1024 ∧ text.length + (filledOnePayload data ascii).length ≤ 131)
    (hans : AckedTimes ((text.length + (filledOnePayload data ascii).length) / room) s.answers
      rest) :
    ∃ s', sendLoop ascii fuel data s = .ok s' ∧ s'.answers = rest := by
  induction fuel generalizing data s text with
  | zero =>
    obtain rfl := List.eq_nil_of_length_eq_zero (Nat.le_zero.1 hfuel)
    have hcount : (text.length + (filledOnePayload [] ascii).length) / room = 0 :=
      Nat.div_eq_of_lt (by cases ascii <;> exact h.lt)
    rw [hcount] at hans
    exact ⟨s, rfl, hans⟩
  | succ fuel ih =>
    by_cases hdata : data = []
    · subst hdata
      have hcount : (text.length + (filledOnePayload [] ascii).length) / room = 0 :=
        Nat.div_eq_of_lt (by cases ascii <;> exact h.lt)
      rw [hcount] at hans
      exact ⟨s, rfl, hans⟩
    have hpiece := h.piece (by rcases hroom with rfl | ⟨rfl, -⟩ <;> rfl) hdata heven
    have hlen : (filledOnePayload data ascii).length =
        (taken ascii s data).length +
          (filledOnePayload (data.drop (xfer ascii s data)) ascii).length := by
      rw [hpiece.split, List.length_append]
    have hfuel' : (data.drop (xfer ascii s data)).length ≤ fuel := by
      have := hpiece.left_lt
      omega
    by_cases hlt : text.length + (taken ascii s data).length < room
    · have hle : text.length + (taken ascii s data).length ≤
          131 := by
        rcases hroom with rfl | ⟨rfl, hroom⟩
        · exact hlt.le.trans (by decide)
        · omega
      obtain ⟨s₁, hs₁, hcollecting, hprogress⟩ := sendLoop_of_lt fuel h hdata
        (by rcases hroom with rfl | ⟨rfl, -⟩ <;> rfl) heven hle hlt
      rw [hs₁]
      refine ih hcollecting hpiece.left_even hfuel' (hroom.imp_right fun hroom => ⟨hroom.1, ?_⟩) ?_
      · rw [List.length_append]
        omega
      · rw [List.length_append, Nat.add_assoc, ← hlen, ← hprogress.answers]
        exact hans
    · have hfull := Nat.le_antisymm hpiece.le (Nat.not_lt.1 hlt)
      have hroom' : room = bufsz := hroom.resolve_right fun hroom => by omega
      subst hroom'
      obtain ⟨x, hx, hs₁⟩ := sendLoop_of_full fuel h hdata hfull
      have hcount : (text.length + (filledOnePayload data ascii).length) / bufsz =
          (filledOnePayload (data.drop (xfer ascii s data)) ascii).length / bufsz + 1 := by
        rw [hlen, ← Nat.add_assoc, hfull, Nat.add_comm]
        exact Nat.add_div_right _ (by decide)
      rw [hcount] at hans
      obtain ⟨next, hnext, hans⟩ := hans
      obtain ⟨s₃, hsent, hs₃⟩ := exists_sendOnePacket (s := { s with xbuff := x }) h.written hnext
      obtain ⟨-, hcollecting, -⟩ := progress_next h.written h.crcEnabled hx
        (by rw [List.length_append]; exact hfull) hsent
      rw [hs₁, hsent]
      refine ih hcollecting hpiece.left_even hfuel' (.inl rfl) ?_
      rw [List.length_nil, Nat.zero_add]
      change AckedTimes _ s₃.answers rest
      rw [hs₃]
      exact hans

end Loop

/-! ### Calls -/

section Calls

variable {crc : Bool} {s s' : Sender} {ret : Int} {rets : List Int} {room : Nat}
  {text p rest : List UInt8} {payloads : List (List UInt8)} {calls : List Call} {c : Call}

theorem sendStream_eq_ok (hroom : room = bufsz ∨ room = 1024) (h : Collecting crc room s text)
    (hok : sendStream s c.data c.ascii = .ok (ret, s')) :
    (∃ payloads text', text ++ c.accepted = payloads.flatten ++ text' ∧
      Collecting crc room s' text' ∧ Progress crc s payloads s' ∧ (room = 1024 → payloads = [])) ∧
      c.accepted = if 0 ≤ ret then c.text else [] := by
  unfold sendStream at hok
  unfold Call.accepted
  split_ifs at hok ⊢ with hodd hret hret
  · obtain ⟨rfl, rfl⟩ := Prod.mk.inj (Except.ok.inj hok)
    exact absurd hret (by decide)
  · obtain ⟨rfl, rfl⟩ := Prod.mk.inj (Except.ok.inj hok)
    exact ⟨⟨[], text, by simp, h, .refl rfl rfl rfl, fun _ => rfl⟩, rfl⟩
  · obtain ⟨s₁, hs₁, hok⟩ := bind_eq_ok.1 hok
    obtain ⟨rfl, rfl⟩ := Prod.mk.inj (Except.ok.inj hok)
    exact ⟨sendLoop_eq_ok hroom h (fun hascii => by simpa [hascii] using hodd) hs₁, rfl⟩
  · obtain ⟨s₁, hs₁, hok⟩ := bind_eq_ok.1 hok
    obtain ⟨rfl, rfl⟩ := Prod.mk.inj (Except.ok.inj hok)
    exact absurd (Int.natCast_nonneg _) hret

theorem exists_sendStream (h : Collecting crc room s text)
    (hroom : room = bufsz ∨ room = 1024 ∧ text.length + c.accepted.length ≤ 131)
    (hans : AckedTimes ((text.length + c.accepted.length) / room) s.answers rest) :
    ∃ ret s', sendStream s c.data c.ascii = .ok (ret, s') ∧ s'.answers = rest := by
  unfold sendStream
  unfold Call.accepted at hroom hans
  split_ifs at hroom hans ⊢ with hodd
  · rw [List.length_nil, Nat.add_zero, Nat.div_eq_of_lt h.lt] at hans
    exact ⟨_, _, rfl, hans⟩
  · obtain ⟨s', hs', hrest⟩ := exists_sendLoop h (fun hascii => by simpa [hascii] using hodd) le_rfl
      hroom hans
    rw [hs']
    exact ⟨_, _, rfl, hrest⟩

theorem length_flatten {n : Nat} (h : ∀ p ∈ payloads, p.length = n) :
    payloads.flatten.length = payloads.length * n := by
  induction payloads with
  | nil => exact (Nat.zero_mul n).symm
  | cons p payloads ih =>
    rw [List.flatten_cons, List.length_append, h p List.mem_cons_self,
      ih fun q hq => h q (List.mem_cons_of_mem p hq), List.length_cons, Nat.succ_mul, Nat.add_comm]

/-- What a call leaves behind full packets. -/
theorem length_of_progress (hroom : room = bufsz ∨ room = 1024) {text' added : List UInt8}
    (htext : text ++ added = payloads.flatten ++ text') (h : Collecting crc room s' text')
    (hp : Progress crc s payloads s') (hfirst : room = 1024 → payloads = []) :
    payloads.length = (text.length + added.length) / room ∧
      text'.length = (text.length + added.length) % room := by
  have hlt := h.lt
  have hflatten : payloads.flatten.length = payloads.length * room := by
    rcases hroom with rfl | rfl
    · exact length_flatten hp.length
    · rw [hfirst rfl]
      rfl
  have hlen := congrArg List.length htext
  rw [List.length_append, List.length_append, hflatten] at hlen
  rw [hlen, Nat.mul_comm, Nat.add_comm, Nat.add_mul_div_left _ _ (Nat.zero_lt_of_lt hlt),
    Nat.div_eq_of_lt hlt, Nat.add_mul_mod_self_left, Nat.mod_eq_of_lt hlt, Nat.zero_add]
  exact ⟨rfl, rfl⟩

/-- What the calls have sent when they end. -/
theorem transfer_eq_ok (hroom : room = bufsz ∨ room = 1024) (h : Collecting crc room s text)
    (hok : transfer s calls = .ok (rets, s')) :
    ∃ payloads text' s₁ ret, text ++ stream calls = payloads.flatten ++ text' ∧
      Collecting crc room s₁ text' ∧ Progress crc s payloads s₁ ∧ (room = 1024 → payloads = []) ∧
      stopXfer s₁ = .ok (ret, s') ∧ reported calls rets = stream calls := by
  induction calls generalizing s text rets with
  | nil =>
    obtain ⟨⟨ret, s₁⟩, hstop, hok⟩ := bind_eq_ok.1 hok
    obtain ⟨rfl, rfl⟩ := Prod.mk.inj (Except.ok.inj hok)
    exact ⟨[], text, s, ret, by simp [stream], h, .refl rfl rfl rfl, fun _ => rfl, hstop, rfl⟩
  | cons c calls ih =>
    obtain ⟨⟨ret, s₁⟩, hsend, hok⟩ := bind_eq_ok.1 hok
    obtain ⟨⟨rets', s₂⟩, htransfer, hok⟩ := bind_eq_ok.1 hok
    obtain ⟨rfl, rfl⟩ := Prod.mk.inj (Except.ok.inj hok)
    obtain ⟨⟨payloads, text₁, htext, hcollecting, hprogress, hfirst⟩, haccepted⟩ :=
      sendStream_eq_ok hroom h hsend
    obtain ⟨payloads', text', s', ret', htext', hcollecting', hprogress', hfirst', hstop,
      hreported⟩ := ih hcollecting htransfer
    refine ⟨payloads ++ payloads', text', s', ret', ?_, hcollecting', hprogress.trans hprogress',
      fun hroom => by rw [hfirst hroom, hfirst' hroom]; rfl, hstop, ?_⟩
    · rw [List.flatten_append, List.append_assoc, ← htext', ← List.append_assoc, ← htext,
        List.append_assoc]
      rfl
    · change (if 0 ≤ ret then c.text else []) ++ reported calls rets' = c.accepted ++ stream calls
      rw [hreported, haccepted]

/-- The payload of the last packet. -/
def lastPayload (text : List UInt8) : List UInt8 :=
  if text.length < bufsz then text ++ List.replicate (bufsz - text.length) ctrlz
  else text.take bufsz

theorem length_lastPayload (text : List UInt8) : (lastPayload text).length = bufsz := by
  unfold lastPayload
  split_ifs with h
  · rw [List.length_append, List.length_replicate]
    omega
  · rw [List.length_take]
    omega

/-- The last packet has its padding, or none. -/
theorem Collecting.fillPacket (h : Collecting crc room s text)
    (hfits : text.length ≤ 3 ∨ bufsz ≤ text.length) :
    ∃ x, Xmodem.fillPacket s s.packetNo text.length crc = .ok { s with xbuff := x } ∧
      Filled crc s.packetNo (lastPayload text) x := by
  obtain ⟨hd, tl, hx, hhd⟩ := h.buffer
  have hlen := h.length
  have hle := h.le
  by_cases hlt : text.length < bufsz
  · rw [lastPayload, if_pos hlt]
    exact fillPacket_of_short hx hhd hlen (hfits.resolve_right (Nat.not_le.2 hlt))
  · rw [lastPayload, if_neg hlt]
    rw [hx, List.length_append, List.length_append, hhd, sizeofXbuff] at hlen
    rw [bufsz] at hlt
    have hsplit : s.xbuff = hd ++ text.take bufsz ++ (text.drop bufsz ++ tl) := by
      rw [← List.append_assoc, List.append_assoc hd, List.take_append_drop]
      exact hx
    refine fillPacket_of_full hsplit hhd ?_ ?_ (Nat.not_lt.1 hlt)
    · rw [List.length_take, bufsz]
      omega
    · rw [List.length_append, List.length_drop, bufsz]
      omega

theorem Collecting.fits (h : Collecting crc room s text) (hok : stopXfer s = .ok (ret, s')) :
    text.length ≤ 3 ∨ bufsz ≤ text.length := by
  by_contra hnot
  obtain ⟨hshort, hlt⟩ := not_or.1 hnot
  obtain ⟨hd, tl, hx, hhd⟩ := h.buffer
  rw [stopXfer, h.packetIdx, fillPacket_of_between hx hhd h.length (Nat.not_le.1 hshort)
    (Nat.not_le.1 hlt)] at hok
  cases hok

theorem Collecting.stopXfer_eq (h : Collecting crc room s text)
    (hfits : text.length ≤ 3 ∨ bufsz ≤ text.length) :
    ∃ x, Filled crc s.packetNo (lastPayload text) x ∧ stopXfer s = (do
      let (ret, s') ← sendOnePacket { s with xbuff := x }
      if ret = 0 then endTries 10 s' else pure (ret, s')) := by
  obtain ⟨x, hx, hfilled⟩ := h.fillPacket hfits
  refine ⟨x, hfilled, ?_⟩
  rw [stopXfer, congrArg₂ (Xmodem.fillPacket s s.packetNo) h.packetIdx h.crcEnabled, hx]
  rfl

/-- What has been sent when the transfer is stopped. -/
theorem stopXfer_eq_ok (h : Collecting crc room s text) (hok : stopXfer s = .ok (ret, s')) :
    ∃ next bytes log closing, Acked maxRetrans s.answers next ∧ ack ∈ next.take 10 ∧
      s'.exchanges = s.exchanges ++ (log ++ closing) ∧ Rounds bytes log ∧
      bytes.length = bufsz + 4 + 1 ∧
      (crc = true → bytes = packet crc s.packetNo (lastPayload text)) ∧
      ∀ x ∈ closing, x.bytes = [eot] := by
  obtain ⟨x, hfilled, hstop⟩ := h.stopXfer_eq (h.fits hok)
  rw [hstop] at hok
  obtain ⟨⟨ret₁, s₁⟩, hsend, hok⟩ := bind_eq_ok.1 hok
  obtain ⟨rfl, hacked, log, hlog, hs₁⟩ := sendOnePacket_eq_ok (s := { s with xbuff := x }) h.written
    hsend
  have hwritten : s₁.written = [] := by
    rw [hs₁]
    exact h.written
  have hexchanges : s₁.exchanges = s.exchanges ++ log := by rw [hs₁]
  obtain ⟨-, hend, closing, hclosing, hs'⟩ := endTries_eq_ok hwritten hok
  refine ⟨s₁.answers, x.take (bufsz + 4 + 1), log, closing, hacked, hend, ?_, hlog, ?_,
    hfilled.packet, hclosing⟩
  · rw [hs', hexchanges, List.append_assoc]
  · rw [List.length_take, hfilled.length]
    rfl

theorem exists_stopXfer (h : Collecting crc room s text)
    (hfits : text.length ≤ 3 ∨ bufsz ≤ text.length) (hacked : Acked maxRetrans s.answers rest)
    (hend : ack ∈ rest.take 10) : ∃ s', stopXfer s = .ok (0, s') := by
  obtain ⟨x, -, hstop⟩ := h.stopXfer_eq hfits
  obtain ⟨s₁, hs₁, hrest⟩ := exists_sendOnePacket (s := { s with xbuff := x }) h.written hacked
  obtain ⟨-, -, log, -, hlog⟩ := sendOnePacket_eq_ok (s := { s with xbuff := x }) h.written hs₁
  have hwritten : s₁.written = [] := by
    rw [hlog]
    exact h.written
  have hend' : ack ∈ s₁.answers.take 10 := by
    rw [hrest]
    exact hend
  obtain ⟨s', hs'⟩ := exists_endTries hwritten hend'
  refine ⟨s', ?_⟩
  rw [hstop, hs₁]
  exact hs'

/-- The calls end when the characters have their place and the host acknowledges all packets. -/
theorem exists_transfer (h : Collecting crc room s text)
    (hroom : room = bufsz ∨ room = 1024 ∧ text.length + (stream calls).length ≤ 131)
    (hfits : (text.length + (stream calls).length) % room ≤ 3 ∨
      bufsz ≤ (text.length + (stream calls).length) % room)
    (hans : ∃ rest, AckedTimes ((text.length + (stream calls).length) / room + 1) s.answers rest ∧
      ack ∈ rest.take 10) :
    ∃ rets s', transfer s calls = .ok (rets, s') := by
  induction calls generalizing s text with
  | nil =>
    obtain ⟨rest, hacked, hend⟩ := hans
    have hnone : text.length + (stream []).length = text.length := rfl
    rw [hnone, Nat.div_eq_of_lt h.lt] at hacked
    rw [hnone, Nat.mod_eq_of_lt h.lt] at hfits
    obtain ⟨next, hnext, rfl⟩ := hacked
    obtain ⟨s', hs'⟩ := exists_stopXfer h hfits hnext hend
    exact ⟨_, _, by rw [transfer, hs']; rfl⟩
  | cons c calls ih =>
    have hstream : (stream (c :: calls)).length = c.accepted.length + (stream calls).length :=
      List.length_append
    rw [hstream] at hroom hfits hans
    obtain ⟨rest, hacked, hend⟩ := hans
    -- the packets that the first call fills, and those behind them
    have hpos : 0 < room := Nat.zero_lt_of_lt h.lt
    have hcount : (text.length + (c.accepted.length + (stream calls).length)) / room + 1 =
        (text.length + c.accepted.length) / room +
          (((text.length + c.accepted.length) % room + (stream calls).length) / room + 1) := by
      have hdiv := Nat.div_add_mod (text.length + c.accepted.length) room
      have hsum : text.length + (c.accepted.length + (stream calls).length) =
          (text.length + c.accepted.length) % room + (stream calls).length +
            room * ((text.length + c.accepted.length) / room) := by omega
      rw [hsum, Nat.add_mul_div_left _ _ hpos]
      omega
    have hmod : (text.length + (c.accepted.length + (stream calls).length)) % room =
        ((text.length + c.accepted.length) % room + (stream calls).length) % room := by
      rw [← Nat.add_assoc, Nat.mod_add_mod]
    rw [hcount] at hacked
    obtain ⟨next, hfirst, hlater⟩ := ackedTimes_add.1 hacked
    obtain ⟨ret, s₁, hsend, hnext⟩ := exists_sendStream h
      (hroom.imp_right fun hroom => ⟨hroom.1, by omega⟩) hfirst
    have hroom' : room = bufsz ∨ room = 1024 := hroom.imp_right And.left
    obtain ⟨⟨payloads, text₁, htext, hcollecting, hprogress, hnone⟩, -⟩ :=
      sendStream_eq_ok hroom' h hsend
    have hlen := (length_of_progress hroom' htext hcollecting hprogress hnone).2
    obtain ⟨rets, s', hs'⟩ := ih hcollecting (hroom.imp_right fun hroom => ⟨hroom.1, by
        rw [hlen, hroom.1, Nat.mod_eq_of_lt (by omega)]
        omega⟩) (by rw [hlen, ← hmod]; exact hfits) ⟨rest, by rw [hlen, hnext]; exact hlater, hend⟩
    exact ⟨_, _, by rw [transfer, hsend]; dsimp only [bind, Except.bind]; rw [hs']; rfl⟩

end Calls

end EarbudFirmware.Xmodem
