import EarbudFirmware.Lib.Framing
import EarbudFirmware.Lib.Transition
import EarbudFirmware.Ota.Specs

/-!
# Reception of packets

In TLV mode a packet is a type byte, 32 bits of which the lower 10 are the length, and the payload.
The chunks that arrive are queued, and a packet is handled as soon as it is complete. A handler may
reinitialise the queue in the middle of this loop.

## Main definitions

* `packetStructureConvert` — `_packet_structure_convert`
* `receiveChunk` — `ota_control_handle_received_data`
* `Tlv` — a packet as it is sent
* `Call.QueueSafe`, `ChunkAccepted` — no handler reinitialises a queue with bytes in it, and no
  chunk is dropped or taken for a legacy packet

## Main results

* `received_packets` — every packet is handled once, in order, however the stream is cut
* `loses_packet` — a packet behind a start is lost, and the start is handled twice
-/

namespace EarbudFirmware.Ota

open NorMemory (Content overlay)
open Transition (Along)
open Framing (Pending)

/-- `OTA_PACKET_LENGTH_HEADER_LEN`. -/
def lengthHeaderLen : Nat := 5

/-- `OTA_PACKET_LENGTH_FIELD_LEN`. -/
def lengthFieldLen : Nat := 4

/-- A call of `_handle_received_data`, with the state that it starts in. -/
structure Call where
  state : OtaState
  reads : Reads
  packet : Packet

/-- A chunk of the stream. `reads k` is what the `k`-th handler of the chunk reads from
elsewhere. -/
structure Chunk where
  buf : Content
  len : Nat
  reads : Nat → Reads

/-- `packet->length`, 10 bits behind the type. -/
def payloadLength (cmdHeader : Content) : Nat := le cmdHeader 1 4 % 2 ^ 10

variable (b : Build)

/-- The packet in the buffer, whose type byte has been moved behind the length. -/
def extractedPacket (extractedOtaRequestBuf : Content) (payloadLen : Nat) : Packet where
  type := extractedOtaRequestBuf lengthFieldLen
  payload i := extractedOtaRequestBuf (lengthHeaderLen + i)
  length := payloadLen

/-- The loop of `_packet_structure_convert`. Every round takes something out of the queue or is the
last one, so the number of bytes in the queue bounds the number of rounds. The status of
`PeekCQueueToBuf` and `DeCQueue` is ignored. -/
def convertLoop (reads : Nat → Reads) :
    (fuel n queueLeftDataLen : Nat) → (cmdHeader : Content) → OtaState → List Call →
      Option (OtaState × List Call)
  | 0, _, _, _, s, calls => some (s, calls)
  | fuel + 1, n, queueLeftDataLen, cmdHeader, s, calls =>
    if lengthHeaderLen ≤ queueLeftDataLen then
      let cmdHeader := (s.otaCmdQueue.peekCQueueToBuf cmdHeader lengthHeaderLen).getD cmdHeader
      let payloadLen := payloadLength cmdHeader
      if payloadLen + lengthHeaderLen > b.packetMaxSize then
        -- a packet that is too long discards everything
        some (s.initOtaCmdQueue b, calls)
      else if payloadLen ≤ queueLeftDataLen - lengthHeaderLen then
        let (otaCmdQueue, buf) :=
          (s.otaCmdQueue.deCQueue s.extractedOtaRequestBuf (payloadLen + lengthHeaderLen)).getD
            (s.otaCmdQueue, s.extractedOtaRequestBuf)
        let buf := Function.update buf lengthFieldLen (buf 0)
        let s := { s with otaCmdQueue, extractedOtaRequestBuf := buf }
        let p := extractedPacket buf payloadLen
        (handleReceivedData b (reads n) s p).bind fun u =>
          -- the length is the one from before the handler
          convertLoop reads fuel (n + 1) otaCmdQueue.lengthOfCQueue cmdHeader u.1
            (calls ++ [⟨s, reads n, p⟩])
      else some (s, calls)
    else some (s, calls)

/-- `_packet_structure_convert` in TLV mode. The status of `EnCQueue` is ignored. -/
def packetStructureConvert (c : Chunk) (s : OtaState) (calls : List Call) :
    Option (OtaState × List Call) :=
  let s :=
    if s.isOnceInitOtaCmdQueue then s
    else { s.initOtaCmdQueue b with isOnceInitOtaCmdQueue := true }
  let s := { s with otaCmdQueue := (s.otaCmdQueue.enCQueue c.buf c.len).getD s.otaCmdQueue }
  convertLoop b c.reads s.otaCmdQueue.lengthOfCQueue 0 s.otaCmdQueue.lengthOfCQueue (fun _ => 0) s
    calls

/-- `stop_receive`: the chunk behind one that starts like an apply command is dropped. -/
def stopReceiving (c : Chunk) (s : OtaState) : OtaState × Bool :=
  if c.buf 0 = 0x92 then ({ s with stopReceive := true }, false)
  else if s.stopReceive then ({ s with stopReceive := false }, true)
  else (s, false)

/-- A chunk that starts like a version command switches to TLV mode. -/
def updatePacketStructure (c : Chunk) (s : OtaState) : OtaState :=
  if c.buf 0 = 0x99 then { s with env := { s.env with packetStructureType := .tlv } } else s

/-- `ota_control_handle_received_data`, with the calls of `_handle_received_data`. -/
def receiveChunk (t : OtaState × List Call) (c : Chunk) : Option (OtaState × List Call) :=
  let (s, dropped) := stopReceiving c t.1
  if dropped then some (s, t.2)
  else
    let s := updatePacketStructure c s
    match s.env.packetStructureType with
    | .tlv => packetStructureConvert b c s t.2
    | .legacy =>
      let p : Packet := ⟨c.buf 0, fun i => c.buf (1 + i), c.len - 1⟩
      (handleReceivedData b (c.reads 0) s p).map fun u => (u.1, t.2 ++ [⟨s, c.reads 0, p⟩])

/-! ### What handlers do to the queue -/

/-- The handler calls `ota_control_reset_env`. -/
def Reinitialises (s : OtaState) (r : Reads) (p : Packet) : Prop :=
  match packetType p.type with
  | .start => p.HasMagicCode
  | .resumeVerify => Resumes r p
  | .getOtaResult => VerificationFails b s
  | .imageApply =>
    ¬(p.HasMagicCode ∧ s.env.isPendingForReboot = true) ∧ s.env.isInBesOtaState = true
  | _ => False

variable {b} {s s' : OtaState} {r : Reads} {p : Packet} {out : List Output}

/-- The queue is reinitialised; the other variables of the reception stay, except the structure. -/
structure QueueReset (b : Build) (s s' : OtaState) : Prop where
  queue : s'.otaCmdQueue = .initCQueue (2 * b.packetMaxSize) s.otaCmdQueue.base
  once : s'.isOnceInitOtaCmdQueue = s.isOnceInitOtaCmdQueue
  stop : s'.stopReceive = s.stopReceive

theorem queueReset_resetEnv {s₁ : OtaState} (resetUser : Bool)
    (h : s₁.reception = s.reception) :
    QueueReset b s (resetEnv b s₁ resetUser) := by
  obtain ⟨-, hqueue, -, honce, hstop⟩ := Reception.mk.inj h
  exact ⟨hqueue ▸ rfl, honce, hstop⟩

theorem QueueReset.of_reception {s₁ : OtaState} (h : QueueReset b s s₁)
    (h' : s'.reception = s₁.reception) : QueueReset b s s' := by
  obtain ⟨-, hqueue, -, honce, hstop⟩ := Reception.mk.inj h'
  exact ⟨hqueue.trans h.queue, honce.trans h.once, hstop.trans h.stop⟩

/-- The queue is reset in the OTA state. -/
theorem exitOtaState_reception (s : OtaState) :
    (exitOtaState b s).reception = s.reception ∨
      s.env.isInBesOtaState = true ∧ QueueReset b s (exitOtaState b s) := by
  unfold exitOtaState
  split_ifs with hbes
  · exact .inr ⟨hbes, rfl, rfl, rfl⟩
  · exact .inl rfl

/-- A second reset changes nothing. -/
theorem QueueReset.resetEnv {s₁ : OtaState} {resetUser : Bool} (h : QueueReset b s s₁) :
    QueueReset b s (resetEnv b s₁ resetUser) := by
  refine ⟨?_, h.once, h.stop⟩
  show CQueue.initCQueue _ s₁.otaCmdQueue.base = _
  rw [h.queue]
  rfl

/-- A handler leaves the reception alone or resets the queue. -/
theorem handleReceivedData_reception
    (hconf : packetType p.type = .configOta → p.length ≤ configurationSize)
    (h : handleReceivedData b r s p = some (s', out)) :
    s'.reception = s.reception ∨ Reinitialises b s r p ∧ QueueReset b s s' := by
  unfold Reinitialises
  unfold handleReceivedData at h
  cases htype : packetType p.type
  all_goals simp only [htype] at h hconf ⊢
  case data =>
    rcases handleData_cases h with ⟨-, rfl, -⟩ | ⟨-, hneutral, -⟩
    · exact .inl rfl
    · exact .inl hneutral.reception
  case segmentVerify =>
    rcases handleSegmentVerify_cases h with ⟨rfl, -⟩ | ⟨-, hneutral, -⟩
    · exact .inl rfl
    · exact .inl hneutral.reception
  case start =>
    rcases handleStart_cases h with ⟨-, rfl, -⟩ | ⟨hmagic, hlog, -⟩
    · exact .inl rfl
    · have hreset : QueueReset b s (startTransmission b s p) := ⟨rfl, rfl, rfl⟩
      exact .inr ⟨hmagic, hreset.of_reception hlog.reception⟩
  case resumeVerify =>
    have hinit : OtaState.reception { s with env := initFlashOffset b s.env } = s.reception := by
      unfold initFlashOffset
      dsimp only
      cases getUserFlashModule b s.env.user <;> rfl
    obtain ⟨-, ⟨-, hlog⟩ | ⟨hres, s₁, hlog, rfl⟩⟩ := handleResumeVerify_cases h
    · exact .inl (hlog.reception.trans hinit)
    · have hreset := queueReset_resetEnv (b := b) false (hlog.reception.trans hinit)
      exact .inr ⟨hres, hreset.queue, hreset.once, hreset.stop⟩
  case configOta => exact .inl (handleConfigOta_cases (hconf trivial) h).1.reception
  case getOtaResult =>
    rcases handleGetOtaResult_cases h with ⟨rfl, -⟩ | ⟨hfails, -, s₁, m, hlog, rfl⟩ | ⟨⟨m, hlog⟩, -⟩
    · exact .inl rfl
    · refine .inr ⟨hfails, ?_⟩
      rcases exitOtaState_reception (b := b) { s with mem := m } with hexit | ⟨-, hexit⟩
      · exact queueReset_resetEnv true (hlog.reception.trans hexit)
      · have hreset : QueueReset b s (exitOtaState b { s with mem := m }) :=
          ⟨hexit.queue, hexit.once, hexit.stop⟩
        exact (hreset.of_reception hlog.reception).resetEnv
    · exact .inl hlog.reception
  case imageApply =>
    rcases handleImageApply_cases h with ⟨-, hlog, -⟩ | ⟨hrefused, -, rfl⟩
    · exact .inl hlog.reception
    · rcases exitOtaState_reception (b := b)
        { s with env := { s.env with permissionToApply := false } } with hexit | ⟨hbes, hexit⟩
      · exact .inl hexit
      · exact .inr ⟨⟨hrefused, hbes⟩, hexit.queue, hexit.once, hexit.stop⟩
  all_goals
    obtain ⟨rfl, -⟩ := Prod.mk.inj (Option.some.inj h)
    exact .inl rfl

/-! ### Packets in the stream -/

/-- A packet as it is sent: `rfu` are the 22 bits behind the length. -/
structure Tlv where
  type : UInt8
  rfu : Nat
  payload : List UInt8

/-- The length fits into its 10 bits, and the packet into a buffer. -/
structure Tlv.Fits (b : Build) (q : Tlv) : Prop where
  length_lt : q.payload.length < 2 ^ 10
  size_le : q.payload.length + lengthHeaderLen ≤ b.packetMaxSize

/-- The bytes of a packet. -/
def Tlv.encode (q : Tlv) : List UInt8 :=
  q.type :: ((List.range 4).map (leByte (q.payload.length + 2 ^ 10 * q.rfu)) ++ q.payload)

theorem Tlv.length_encode (q : Tlv) : q.encode.length = q.payload.length + lengthHeaderLen := by
  simp [encode, lengthHeaderLen]
  omega

/-- The call is about the packet. -/
structure Call.Delivers (c : Call) (q : Tlv) : Prop where
  type : c.packet.type = q.type
  length : c.packet.length = q.payload.length
  payload : (List.range q.payload.length).map c.packet.payload = q.payload

/-- No handler reinitialises a queue with bytes in it, and none copies a configuration over the
variables behind it. -/
structure Call.QueueSafe (b : Build) (c : Call) : Prop where
  queue : Reinitialises b c.state c.reads c.packet → c.state.otaCmdQueue.len = 0
  configuration : packetType c.packet.type = .configOta → c.packet.length ≤ configurationSize

/-- The chunk is not dropped and not taken for a legacy packet. -/
structure ChunkAccepted (t : OtaState × List Call) (c : Chunk) : Prop where
  received : t.1.stopReceive = true → c.buf 0 = 0x92
  structured : t.1.env.packetStructureType = .tlv ∨ c.buf 0 = 0x99

variable {q : Tlv} {buf : Content} {l : List UInt8}

/-- The header of a packet in a buffer. -/
theorem payloadLength_eq (hfits : q.Fits b)
    (h : ∀ i < lengthHeaderLen, q.encode[i]? = some (buf i)) :
    payloadLength buf = q.payload.length := by
  have hle : le buf 1 4 = (q.payload.length + 2 ^ 10 * q.rfu) / 256 ^ 0 % 256 ^ 4 := by
    refine le_leByte fun i hi => ?_
    have hget := h (1 + i) (by unfold lengthHeaderLen; omega)
    rw [Tlv.encode, Nat.add_comm 1 i, List.getElem?_cons_succ,
      List.getElem?_append_left (by simpa using hi)] at hget
    simpa [hi, Nat.add_comm] using hget.symm
  have hlt := hfits.length_lt
  rw [payloadLength, hle]
  omega

/-- The packet that is extracted from a buffer. -/
theorem extractedPacket_delivers {s : OtaState} {r : Reads}
    (h : ∀ i < q.encode.length, q.encode[i]? = some (buf i)) :
    Call.Delivers ⟨s, r, extractedPacket (Function.update buf lengthFieldLen (buf 0))
      q.payload.length⟩ q := by
  have hlen := q.length_encode
  refine ⟨?_, rfl, ?_⟩
  · have htype := h 0 (by unfold lengthHeaderLen at hlen; omega)
    show Function.update buf lengthFieldLen (buf 0) lengthFieldLen = q.type
    rw [Function.update_self]
    exact (Option.some.inj htype).symm
  · refine List.ext_getElem? fun i => ?_
    by_cases hi : i < q.payload.length
    · have hget := h (lengthHeaderLen + i) (by omega)
      have hne : lengthHeaderLen + i ≠ lengthFieldLen := by
        unfold lengthHeaderLen lengthFieldLen
        omega
      have hpayload : q.encode[lengthHeaderLen + i]? = q.payload[i]? := by
        rw [Tlv.encode, lengthHeaderLen, Nat.add_comm 5 i, List.getElem?_cons_succ,
          List.getElem?_append_right (by simp), List.length_map, List.length_range,
          Nat.add_sub_cancel]
      rw [List.getElem?_map, List.getElem?_range hi, ← hpayload, hget]
      exact congrArg some (Function.update_of_ne hne _ _)
    · rw [List.getElem?_eq_none (by simpa using hi), List.getElem?_eq_none (by omega)]

/-- The queue holds what has been received. -/
structure QueueOk (b : Build) (s : OtaState) : Prop where
  once : s.isOnceInitOtaCmdQueue = true
  wellFormed : s.otaCmdQueue.WellFormed
  size : s.otaCmdQueue.size = 2 * b.packetMaxSize

theorem QueueReset.queueOk (h : QueueReset b s s') (honce : s.isOnceInitOtaCmdQueue = true) :
    QueueOk b s' := by
  have hpos := b.packetMaxSize_pos
  refine ⟨h.once.trans honce, ?_, ?_⟩
  · rw [h.queue]
    exact CQueue.wellFormed_initCQueue (by omega)
  · rw [h.queue]
    rfl

/-- A handler that is safe for the queue keeps its content. -/
theorem Call.QueueSafe.handle {c : Call} (hsafe : c.QueueSafe b) (hok : QueueOk b c.state)
    (h : handleReceivedData b c.reads c.state c.packet = some (s', out)) :
    QueueOk b s' ∧ s'.otaCmdQueue.contents = c.state.otaCmdQueue.contents ∧
      s'.otaCmdQueue.len = c.state.otaCmdQueue.len := by
  rcases handleReceivedData_reception hsafe.configuration h with hrec | ⟨hreinit, hreset⟩
  · obtain ⟨-, hqueue, -, honce, -⟩ := Reception.mk.inj hrec
    rw [hqueue]
    exact ⟨⟨honce.trans hok.once, hqueue ▸ hok.wellFormed, hqueue ▸ hok.size⟩, rfl, rfl⟩
  · -- the queue was empty
    have hlen := hsafe.queue hreinit
    have hempty : c.state.otaCmdQueue.contents = [] :=
      List.eq_nil_of_length_eq_zero (CQueue.length_contents.trans hlen)
    rw [hempty, hlen, hreset.queue]
    exact ⟨hreset.queueOk hok.once, rfl, rfl⟩

/-! ### The loop -/

/-- The calls are recorded in order. -/
theorem convertLoop_extends {reads : Nat → Reads} {fuel n left : Nat} {hdr : Content}
    {calls calls' : List Call}
    (h : convertLoop b reads fuel n left hdr s calls = some (s', calls')) : calls <+: calls' := by
  induction fuel generalizing n left hdr s calls with
  | zero => exact (Prod.mk.inj (Option.some.inj h)).2 ▸ List.prefix_refl calls
  | succ fuel ih =>
    unfold convertLoop at h
    dsimp only at h
    split_ifs at h
    · exact (Prod.mk.inj (Option.some.inj h)).2 ▸ List.prefix_refl calls
    · obtain ⟨u, -, h⟩ := Option.bind_eq_some_iff.1 h
      exact (List.prefix_append _ _).trans (ih h)
    · exact (Prod.mk.inj (Option.some.inj h)).2 ▸ List.prefix_refl calls
    · exact (Prod.mk.inj (Option.some.inj h)).2 ▸ List.prefix_refl calls

/-- The first packet has not arrived completely. -/
def Incomplete (c : List UInt8) (todo : List Tlv) : Prop :=
  ∀ q rest, todo = q :: rest → c.length < q.encode.length

/-- The packets at the front of `todo` have been delivered in order, behind earlier calls, and the
next one has not arrived completely. -/
def Delivered (b : Build) (todo : List Tlv) (coming : List UInt8) (calls : List Call)
    (t : OtaState × List Call) : Prop :=
  ∃ done todo' new, todo = done ++ todo' ∧ t.2 = calls ++ new ∧
    List.Forall₂ Call.Delivers new done ∧ QueueOk b t.1 ∧
    Pending t.1.otaCmdQueue.contents coming (todo'.map Tlv.encode) ∧
    Incomplete t.1.otaCmdQueue.contents todo'

variable {todo : List Tlv} {coming : List UInt8} {calls calls' : List Call}

theorem Delivered.none (hok : QueueOk b s)
    (hpend : Pending s.otaCmdQueue.contents coming (todo.map Tlv.encode))
    (hinc : Incomplete s.otaCmdQueue.contents todo) : Delivered b todo coming calls (s, calls) :=
  ⟨[], todo, [], rfl, (List.append_nil calls).symm, .nil, hok, hpend, hinc⟩

theorem Delivered.cons {c : Call} {t : OtaState × List Call} (hc : c.Delivers q)
    (h : Delivered b todo coming (calls ++ [c]) t) : Delivered b (q :: todo) coming calls t := by
  obtain ⟨done, todo', new, rfl, hcalls, hnew, hok, hpend, hinc⟩ := h
  refine ⟨q :: done, todo', c :: new, rfl, ?_, .cons hc hnew, hok, hpend, hinc⟩
  rw [hcalls, List.append_assoc, List.singleton_append]

/-- The loop delivers the packets that have arrived completely. -/
theorem convertLoop_spec {reads : Nat → Reads} {fuel n : Nat} {hdr : Content} (hok : QueueOk b s)
    (hpend : Pending s.otaCmdQueue.contents coming (todo.map Tlv.encode))
    (hfits : ∀ q ∈ todo, q.Fits b) (hfuel : s.otaCmdQueue.len ≤ fuel)
    (hsafe : ∀ c ∈ calls', c.QueueSafe b)
    (h : convertLoop b reads fuel n s.otaCmdQueue.len hdr s calls = some (s', calls')) :
    Delivered b todo coming calls (s', calls') := by
  induction fuel generalizing n hdr s calls todo with
  | zero =>
    refine Option.some.inj h ▸ .none hok hpend fun q rest _ => ?_
    rw [CQueue.length_contents, q.length_encode]
    unfold lengthHeaderLen
    omega
  | succ fuel ih =>
    unfold convertLoop at h
    dsimp only at h
    by_cases hhead : lengthHeaderLen ≤ s.otaCmdQueue.len
    · -- the header of the next packet has arrived
      have hne : s.otaCmdQueue.contents ≠ [] := fun hnil => by
        have hlen := CQueue.length_contents (q := s.otaCmdQueue)
        rw [hnil, List.length_nil] at hlen
        unfold lengthHeaderLen at hhead
        omega
      obtain ⟨f, fs, hfs⟩ := hpend.exists_frame hne
      obtain ⟨q, rest, rfl, rfl, rfl⟩ := List.map_eq_cons_iff.1 hfs
      have hq := hfits q List.mem_cons_self
      have hencode := q.length_encode
      have hsize := hq.size_le
      obtain ⟨hdr', hpeek, hhdr⟩ := CQueue.peekCQueueToBuf_spec (e := hdr) hok.wellFormed hhead
      have hlen : payloadLength hdr' = q.payload.length := payloadLength_eq hq fun i hi => by
        rw [← hpend.getElem_eq (by omega) (by rw [CQueue.length_contents]; omega)]
        exact hhdr i hi
      rw [if_pos hhead, hpeek, Option.getD_some, hlen, if_neg (by omega)] at h
      by_cases hcomplete : q.payload.length ≤ s.otaCmdQueue.len - lengthHeaderLen
      · have hle : q.payload.length + lengthHeaderLen ≤ s.otaCmdQueue.len := by omega
        obtain ⟨queue, buf, hde, hwf, hqsize, hcont, hget, -⟩ :=
          CQueue.deCQueue_spec (e := s.extractedOtaRequestBuf) hok.wellFormed hle
        rw [if_pos hcomplete, hde, Option.getD_some] at h
        obtain ⟨⟨s₁, out⟩, hhandle, h⟩ := Option.bind_eq_some_iff.1 h
        let c : Call := ⟨{ s with
          otaCmdQueue := queue
          extractedOtaRequestBuf := Function.update buf lengthFieldLen (buf 0) }, reads n,
          extractedPacket (Function.update buf lengthFieldLen (buf 0)) q.payload.length⟩
        have hmem : c ∈ calls' := (convertLoop_extends h).subset (by simp [c])
        obtain ⟨hok₁, hcont₁, hlen₁⟩ :=
          (hsafe c hmem).handle ⟨hok.once, hwf, hqsize.trans hok.size⟩ hhandle
        have hdelivers : c.Delivers q := extractedPacket_delivers fun i hi => by
          rw [← hpend.getElem_eq hi (by rw [CQueue.length_contents]; omega)]
          exact hget i (by omega)
        have hrest : queue.contents = s.otaCmdQueue.contents.drop q.encode.length := by
          rw [hcont, hencode]
        have hqlen : queue.len = s.otaCmdQueue.len - q.encode.length := by
          rw [← CQueue.length_contents, hrest, List.length_drop, CQueue.length_contents]
        have hloop : convertLoop b reads fuel (n + 1) s₁.otaCmdQueue.len hdr' s₁ (calls ++ [c]) =
            some (s', calls') := by
          rw [hlen₁]
          exact h
        refine .cons hdelivers (ih hok₁ ?_ (fun q' hq' => hfits q' (List.mem_cons_of_mem _ hq'))
          ?_ hloop)
        · rw [hcont₁, hrest]
          exact hpend.drop_frame (by rw [CQueue.length_contents]; omega)
        · rw [hlen₁, hqlen]
          unfold lengthHeaderLen at *
          omega
      · rw [if_neg hcomplete] at h
        refine Option.some.inj h ▸ .none hok hpend fun q' rest' hq' => ?_
        obtain ⟨rfl, -⟩ := List.cons.inj hq'
        rw [CQueue.length_contents, hencode]
        omega
    · rw [if_neg hhead] at h
      refine Option.some.inj h ▸ .none hok hpend fun q rest _ => ?_
      rw [CQueue.length_contents, q.length_encode]
      omega

/-! ### Chunks -/

/-- The bytes of a chunk. -/
def Chunk.bytes (c : Chunk) : List UInt8 := (List.range c.len).map c.buf

/-- What has been received and not been delivered; before the first packet there is no queue. -/
inductive Waiting (b : Build) (s : OtaState) : List UInt8 → Prop where
  | queued (hok : QueueOk b s) : Waiting b s s.otaCmdQueue.contents
  | unused (honce : s.isOnceInitOtaCmdQueue = false) : Waiting b s []

/-- The packets that have been delivered and those that are left. -/
def Receiving (b : Build) (packets : List Tlv) (coming : List UInt8) (t : OtaState × List Call) :
    Prop :=
  ∃ done todo waiting, packets = done ++ todo ∧ List.Forall₂ Call.Delivers t.2 done ∧
    Waiting b t.1 waiting ∧ Pending waiting coming (todo.map Tlv.encode) ∧ Incomplete waiting todo

variable {packets : List Tlv} {t t' : OtaState × List Call} {c : Chunk}

/-- A chunk is queued, and the complete packets are delivered. -/
theorem packetStructureConvert_spec {waiting : List UInt8} (hwait : Waiting b s waiting)
    (hpend : Pending waiting (c.bytes ++ coming) (todo.map Tlv.encode))
    (hinc : Incomplete waiting todo) (hfits : ∀ q ∈ todo, q.Fits b) (hlen : c.len ≤ b.packetMaxSize)
    (hsafe : ∀ c ∈ calls', c.QueueSafe b)
    (h : packetStructureConvert b c s calls = some (s', calls')) :
    Delivered b todo coming calls (s', calls') := by
  obtain ⟨s₁, hok, hcontents, hs₁⟩ : ∃ s₁, QueueOk b s₁ ∧ s₁.otaCmdQueue.contents = waiting ∧
      s₁ = if s.isOnceInitOtaCmdQueue then s
        else { s.initOtaCmdQueue b with isOnceInitOtaCmdQueue := true } := by
    cases hwait with
    | queued hok => exact ⟨s, hok, rfl, (if_pos hok.once).symm⟩
    | unused honce =>
      have hpos := b.packetMaxSize_pos
      refine ⟨_, ⟨rfl, ?_, rfl⟩, ?_, (if_neg (by simp [honce])).symm⟩
      · exact CQueue.wellFormed_initCQueue (by omega)
      · exact CQueue.contents_initCQueue
  -- what waits is shorter than a packet, so the chunk fits into the queue
  have hroom : s₁.otaCmdQueue.len + c.len ≤ s₁.otaCmdQueue.size := by
    rw [hok.size, ← CQueue.length_contents, hcontents]
    cases todo with
    | nil =>
      have hnil : waiting = [] := (List.append_eq_nil_iff.1 hpend).1
      rw [hnil, List.length_nil]
      omega
    | cons q rest =>
      have hlt := hinc q rest rfl
      have hsize := (hfits q List.mem_cons_self).size_le
      rw [q.length_encode] at hlt
      omega
  obtain ⟨queue, hen, hwf, hsize, hqueue⟩ :=
    CQueue.enCQueue_spec (e := c.buf) hok.wellFormed hroom
  unfold packetStructureConvert at h
  dsimp only at h
  rw [← hs₁, hen] at h
  refine convertLoop_spec (s := { s₁ with otaCmdQueue := queue })
    ⟨hok.once, hwf, hsize.trans hok.size⟩ ?_ hfits le_rfl hsafe h
  show Pending queue.contents coming _
  rw [hqueue, hcontents]
  exact hpend.arrive

/-- An accepted chunk reaches the queue. -/
theorem receiveChunk_eq (hacc : ChunkAccepted t c) :
    ∃ s, receiveChunk b t c = packetStructureConvert b c s t.2 ∧
      s.otaCmdQueue = t.1.otaCmdQueue ∧
      s.isOnceInitOtaCmdQueue = t.1.isOnceInitOtaCmdQueue := by
  obtain ⟨s, hs, henv, hqueue, honce⟩ : ∃ s, stopReceiving c t.1 = (s, false) ∧
      s.env = t.1.env ∧ s.otaCmdQueue = t.1.otaCmdQueue ∧
      s.isOnceInitOtaCmdQueue = t.1.isOnceInitOtaCmdQueue := by
    unfold stopReceiving
    split_ifs with happly hstop
    · exact ⟨_, rfl, rfl, rfl, rfl⟩
    · exact absurd (hacc.received hstop) happly
    · exact ⟨_, rfl, rfl, rfl, rfl⟩
  obtain ⟨s₁, hs₁, htlv, hqueue₁, honce₁⟩ : ∃ s₁, updatePacketStructure c s = s₁ ∧
      s₁.env.packetStructureType = .tlv ∧ s₁.otaCmdQueue = s.otaCmdQueue ∧
      s₁.isOnceInitOtaCmdQueue = s.isOnceInitOtaCmdQueue := by
    unfold updatePacketStructure
    split_ifs with hversion
    · exact ⟨_, rfl, rfl, rfl, rfl⟩
    · exact ⟨s, rfl, henv ▸ hacc.structured.resolve_right hversion, rfl, rfl⟩
  refine ⟨s₁, ?_, hqueue₁.trans hqueue, honce₁.trans honce⟩
  unfold receiveChunk
  simp only [hs, hs₁, htlv, Bool.false_eq_true, if_false]

theorem receiveChunk_extends (h : receiveChunk b t c = some t') : t.2 <+: t'.2 := by
  obtain ⟨s', calls'⟩ := t'
  unfold receiveChunk at h
  dsimp only at h
  split_ifs at h
  · exact Option.some.inj h ▸ List.prefix_refl _
  · cases hstruct : (updatePacketStructure c (stopReceiving c t.1).1).env.packetStructureType with
    | tlv =>
      simp only [hstruct] at h
      exact convertLoop_extends h
    | legacy =>
      simp only [hstruct] at h
      obtain ⟨u, -, hu⟩ := Option.map_eq_some_iff.1 h
      exact (Prod.mk.inj hu).2 ▸ List.prefix_append _ _

theorem Receiving.chunk (hr : Receiving b packets (c.bytes ++ coming) t)
    (hfits : ∀ q ∈ packets, q.Fits b) (hlen : c.len ≤ b.packetMaxSize) (hacc : ChunkAccepted t c)
    (hsafe : ∀ c ∈ t'.2, c.QueueSafe b) (h : receiveChunk b t c = some t') :
    Receiving b packets coming t' := by
  obtain ⟨s', calls'⟩ := t'
  obtain ⟨done, todo, waiting, rfl, hdone, hwait, hpend, hinc⟩ := hr
  obtain ⟨s, heq, hqueue, honce⟩ := receiveChunk_eq (b := b) hacc
  rw [heq] at h
  have hwait' : Waiting b s waiting := by
    cases hwait with
    | queued hok =>
      rw [← hqueue]
      exact .queued ⟨honce.trans hok.once, hqueue ▸ hok.wellFormed, hqueue ▸ hok.size⟩
    | unused hunused => exact .unused (honce.trans hunused)
  have hfits' : ∀ q ∈ todo, q.Fits b := fun q hq => hfits q (List.mem_append_right _ hq)
  obtain ⟨done', todo', new, rfl, hcalls, hnew, hok, hpend', hinc'⟩ :=
    packetStructureConvert_spec hwait' hpend hinc hfits' hlen hsafe h
  refine ⟨done ++ done', todo', _, (List.append_assoc _ _ _).symm, ?_, .queued hok, hpend', hinc'⟩
  rw [hcalls]
  exact List.rel_append hdone hnew

/-! ### Runs -/

theorem run_extends {chunks : List Chunk} (h : chunks.foldlM (receiveChunk b) t = some t') :
    t.2 <+: t'.2 := by
  induction chunks generalizing t with
  | nil =>
    obtain rfl : t = t' := by simpa using h
    exact List.prefix_refl _
  | cons c chunks ih =>
    obtain ⟨t₁, hc, hrest⟩ := Transition.foldlM_cons_eq_some h
    exact (receiveChunk_extends hc).trans (ih hrest)

theorem Receiving.run {chunks : List Chunk}
    (hr : Receiving b packets (chunks.flatMap Chunk.bytes) t) (hfits : ∀ q ∈ packets, q.Fits b)
    (hlen : ∀ c ∈ chunks, c.len ≤ b.packetMaxSize)
    (hacc : Along (receiveChunk b) ChunkAccepted t chunks)
    (hsafe : ∀ c ∈ t'.2, c.QueueSafe b) (h : chunks.foldlM (receiveChunk b) t = some t') :
    Receiving b packets [] t' := by
  induction chunks generalizing t with
  | nil =>
    obtain rfl : t = t' := by simpa using h
    exact hr
  | cons c chunks ih =>
    obtain ⟨t₁, hc, hrest⟩ := Transition.foldlM_cons_eq_some h
    have hsafe₁ : ∀ c ∈ t₁.2, c.QueueSafe b := fun c hmem =>
      hsafe c ((run_extends hrest).subset hmem)
    have hr₁ := Receiving.chunk hr hfits (hlen c List.mem_cons_self) hacc.1 hsafe₁ hc
    exact ih hr₁ (fun c hmem => hlen c (List.mem_cons_of_mem _ hmem)) (hacc.2 t₁ hc) hrest

/-- Nothing has been received yet. -/
def OtaState.Idle (b : Build) (s : OtaState) : Prop :=
  s.isOnceInitOtaCmdQueue = false ∨ QueueOk b s ∧ s.otaCmdQueue.len = 0

/-- Every packet is handled exactly once, in order, however the stream of packets is cut into
chunks, when no handler reinitialises a queue with bytes in it and no chunk is dropped. -/
theorem received_packets (hs : s.Idle b) (hfits : ∀ q ∈ packets, q.Fits b) {chunks : List Chunk}
    (hlen : ∀ c ∈ chunks, c.len ≤ b.packetMaxSize)
    (hcut : chunks.flatMap Chunk.bytes = packets.flatMap Tlv.encode)
    (hrun : chunks.foldlM (receiveChunk b) (s, []) = some t)
    (hacc : Along (receiveChunk b) ChunkAccepted (s, []) chunks)
    (hsafe : ∀ c ∈ t.2, c.QueueSafe b) : List.Forall₂ Call.Delivers t.2 packets := by
  have hpend : Pending [] (chunks.flatMap Chunk.bytes) (packets.map Tlv.encode) := by
    rw [hcut, List.flatMap_def]
    rfl
  have hwait : Waiting b s [] := by
    rcases hs with honce | ⟨hok, hempty⟩
    · exact .unused honce
    · have hnil : s.otaCmdQueue.contents = [] :=
        List.eq_nil_of_length_eq_zero (CQueue.length_contents.trans hempty)
      exact hnil ▸ .queued hok
  have hinc : Incomplete [] packets := fun q rest _ => by
    rw [q.length_encode]
    exact Nat.succ_pos _
  obtain ⟨done, todo, waiting, rfl, hdone, -, hpend', hinc'⟩ :=
    Receiving.run ⟨[], packets, [], rfl, .nil, hwait, hpend, hinc⟩ hfits hlen hacc hsafe hrun
  have hnil : todo.map Tlv.encode = [] := hpend'.eq_nil fun f fs hfs => by
    obtain ⟨q, rest, rfl, rfl, -⟩ := List.map_eq_cons_iff.1 hfs
    exact hinc' q rest rfl
  obtain rfl := List.map_eq_nil_iff.1 hnil
  rwa [List.append_nil]

/-! ### Examples -/

/-- A chunk whose handlers see an empty upgrade log. -/
def Chunk.ofBytes (bytes : List UInt8) : Chunk :=
  ⟨fun i => bytes.getD i 0, bytes.length, fun _ => .empty⟩

/-- A device in TLV mode that has received nothing. -/
def tlvDevice : OtaState :=
  let s := OtaState.initial fun _ _ => 0xFF
  { s with env := { s.env with packetStructureType := .tlv } }

/-- A packet that sets the user, in two chunks. -/
def setUserChunks : List Chunk := [.ofBytes [0x97, 1, 0], .ofBytes [0, 0, 1]]

theorem received_packets_setUser :
    ∃ t, setUserChunks.foldlM (receiveChunk .small) (tlvDevice, []) = some t ∧
      List.Forall₂ Call.Delivers t.2 [⟨0x97, 0, [1]⟩] := by
  have hfirst : (receiveChunk .small (tlvDevice, []) (.ofBytes [0x97, 1, 0])).map
      (fun t => (t.1.stopReceive, decide (t.1.env.packetStructureType = .tlv))) =
        some (false, true) := by decide +kernel
  have hacc : Along (receiveChunk .small) ChunkAccepted (tlvDevice, []) setUserChunks := by
    refine ⟨⟨nofun, .inl rfl⟩, fun t ht => ⟨?_, fun _ _ => trivial⟩⟩
    rw [ht] at hfirst
    obtain ⟨hstop, htlv⟩ := Prod.mk.inj (Option.some.inj hfirst)
    exact ⟨fun hstop' => by simp [hstop] at hstop', .inl (of_decide_eq_true htlv)⟩
  have hrun : (setUserChunks.foldlM (receiveChunk .small) (tlvDevice, [])).map
      (fun t => decide (∀ c ∈ t.2, c.packet.type = 0x97)) = some true := by decide +kernel
  obtain ⟨t, ht, htype⟩ := Option.map_eq_some_iff.1 hrun
  have hsafe : ∀ c ∈ t.2, c.QueueSafe .small := by
    intro c hc
    have hset : packetType c.packet.type = .setUser := by
      rw [of_decide_eq_true htype c hc]
      rfl
    refine ⟨fun hre => ?_, fun hconf => ?_⟩
    · simp [Reinitialises, hset] at hre
    · rw [hset] at hconf
      cases hconf
  have hfits : ∀ q ∈ [(⟨0x97, 0, [1]⟩ : Tlv)], q.Fits .small := by
    intro q hq
    obtain rfl := List.mem_singleton.1 hq
    exact ⟨by decide, by decide⟩
  exact ⟨t, ht, received_packets (.inl rfl) hfits (by decide) (by decide) ht hacc hsafe⟩

/-- A start and twelve bytes of data. -/
def startAndData : List Tlv :=
  [⟨0x80, 0, [0x42, 0x45, 0x53, 0x54, 12, 0, 0, 0, 0, 0, 0, 0]⟩,
    ⟨0x85, 0, List.replicate 12 0⟩]

/-- When they arrive in one chunk, the data is lost and the start is handled twice. -/
theorem loses_packet :
    ¬∀ (packets : List Tlv) (chunks : List Chunk) (t : OtaState × List Call),
      (∀ q ∈ packets, q.Fits .small) → (∀ c ∈ chunks, c.len ≤ Build.small.packetMaxSize) →
      chunks.flatMap Chunk.bytes = packets.flatMap Tlv.encode →
      (∀ q ∈ packets, q.type ≠ 0x92) →
      chunks.foldlM (receiveChunk .small) (tlvDevice, []) = some t →
      List.Forall₂ Call.Delivers t.2 packets := by
  intro hall
  have hrun : ([Chunk.ofBytes (startAndData.flatMap Tlv.encode)].foldlM (receiveChunk .small)
      (tlvDevice, [])).map (fun t => t.2.map fun c => c.packet.type) = some [0x80, 0x80] := by
    decide +kernel
  obtain ⟨t, ht, htypes⟩ := Option.map_eq_some_iff.1 hrun
  have hfits : ∀ q ∈ startAndData, q.Fits .small := by
    intro q hq
    rcases List.mem_cons.1 hq with rfl | hq
    · exact ⟨by decide, by decide⟩
    · obtain rfl := List.mem_singleton.1 hq
      exact ⟨by decide, by decide⟩
  have hdelivers := hall startAndData _ t hfits (by decide) (by decide) (by decide) ht
  obtain ⟨c₁, l, -, hrest, hcalls⟩ := List.forall₂_cons_right_iff.1 hdelivers
  obtain ⟨c₂, l', hdata, -, rfl⟩ := List.forall₂_cons_right_iff.1 hrest
  rw [hcalls] at htypes
  have htype : c₂.packet.type = 0x80 := (List.cons.inj (List.cons.inj htypes).2).1
  rw [hdata.type] at htype
  revert htype
  decide

end EarbudFirmware.Ota
