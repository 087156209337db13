import Mathlib.Data.List.Perm.Basic
import EarbudFirmware.Apps.ChipBridgeLink

/-!
# Packets that get through

A packet has 6 bytes in front of its content, and the buffer of `app_chip_bridge_rx_thread` is no
longer than the longest content.

## Main definitions

* `Inv` — the packets on the way, those in the receive queue and those handled

## Main results

* `packets_delivered_along` — task packets whose content leaves room for the header get through
* `packets_not_delivered` — longer ones do not
-/

namespace EarbudFirmware.ChipBridge

open NorMemory (Content overlay InRange)
open CQueue (fill)
open Transition

variable {tables : CmdTables} {n : Nat} {m : Message} {cmdcode cmdseq : UInt16}
  {pBuff bytes : List UInt8}

/-! ### One packet -/

/-- The block of a message that is transmitted with a number. -/
def blockOf (p : Message × UInt16) : List UInt8 := dataPacket p.1.code p.2 p.1.content

theorem length_blockOf {p : Message × UInt16} : (blockOf p).length = p.1.content.length + 6 :=
  length_dataPacket

@[simp] theorem blockCode_blockOf {p : Message × UInt16} : blockCode (blockOf p) = p.1.code := by
  rw [blockCode, blockOf, leAt_dataPacket.1, UInt16.ofNat_toNat]

theorem getTaskCmdEntry_cmdcode {e : TaskCmdInstance}
    (h : tables.getTaskCmdEntry cmdcode = some e) : e.cmdcode = cmdcode := by
  simpa using List.find?_some h

theorem length_rspBuffer : (rspBuffer cmdcode pBuff).length = pBuff.length + 2 := by
  rw [rspBuffer, List.length_append, length_leBytes, Nat.add_comm]

theorem ofCmd_code : (Message.ofCmd cmdcode pBuff).code = cmdcode := by
  unfold Message.ofCmd
  split
  · rfl
  · rfl

theorem ofCmd_content : (Message.ofCmd cmdcode pBuff).content = pBuff := by
  unfold Message.ofCmd
  split
  · rfl
  · rfl

namespace Sound

/-- The content of a sound message fits into a packet. -/
theorem length_le (h : Sound tables n m) (hn : n ≤ maxDataPacketSize) :
    m.content.length ≤ maxDataPacketSize := by
  cases m with
  | command c p => exact Nat.le_trans h.2.2.2 hn
  | response c p =>
    rw [Message.content, length_rspBuffer]
    exact Nat.le_trans h.2.2 hn
  | instant c p => exact h.2.2

theorem length_le_of_task (h : Sound tables n m) (htask : m.isInstant = false) :
    m.content.length ≤ n := by
  cases m with
  | command c p => exact h.2.2.2
  | response c p =>
    rw [Message.content, length_rspBuffer]
    exact h.2.2
  | instant c p => cases htask

theorem cmdGroup_eq (h : Sound tables n m) :
    cmdGroup m.code = if m.isInstant then cmdGroupInstant else cmdGroupTask := by
  cases m with
  | command c p => exact h.1
  | response c p =>
    show cmdGroup chipTaskCmdRsp = cmdGroupTask
    decide
  | instant c p => exact h.1

/-- The block of a message of the mailbox. -/
theorem txBlock_eq {msg : TxMailboxParam}
    (h : Sound tables n (.ofCmd msg.cmdCode msg.bytes)) (hn : n ≤ maxDataPacketSize) :
    txBlock tables cmdseq msg =
      some (blockOf (.ofCmd msg.cmdCode msg.bytes, cmdseq)) := by
  have hlen := h.length_le hn
  rw [blockOf, ofCmd_code, ofCmd_content]
  rw [ofCmd_content] at hlen
  unfold txBlock
  unfold Message.ofCmd at h
  split at h
  next hinstant =>
    obtain ⟨e, he⟩ := Option.isSome_iff_exists.mp h.2.1
    rw [if_neg (by rw [hinstant]; decide), if_pos hinstant, he]
    exact if_pos hlen
  next hinstant =>
    obtain ⟨htask, hne, hsome, -⟩ := h
    obtain ⟨e, he⟩ := Option.isSome_iff_exists.mp hsome
    rw [if_pos htask, he, Option.bind_some]
    unfold cmdTransmitHandler
    rw [getTaskCmdEntry_cmdcode he, if_neg hne]
    unfold sendData
    rw [he, Option.bind_some]
    exact if_pos hlen

/-- The block of a response. -/
theorem cmdTransmitHandler_eq {rspCode : UInt16} {e : TaskCmdInstance}
    (h : Sound tables n (.response rspCode pBuff)) (hn : n ≤ maxDataPacketSize)
    (he : tables.getTaskCmdEntry chipTaskCmdRsp = some e) :
    cmdTransmitHandler tables e cmdseq (rspBuffer rspCode pBuff) =
      some (blockOf (.response rspCode pBuff, cmdseq)) := by
  have hlen := h.length_le hn
  obtain ⟨r, hr⟩ := Option.isSome_iff_exists.mp h.2.1
  unfold cmdTransmitHandler
  rw [getTaskCmdEntry_cmdcode he, if_pos rfl]
  unfold sendCmdRspHandler
  rw [rspcode_rspBuffer, hr]
  exact if_pos hlen

/-- A packet of the task group calls its handler. -/
theorem cmdHandler_eq (h : Sound tables n m) (htask : m.isInstant = false) :
    (tables.getTaskCmdEntry m.code).bind (fun e => cmdHandler tables e m.content) =
      some (m.calls tables) := by
  cases m with
  | command c p =>
    obtain ⟨-, hne, hsome, -⟩ := h
    obtain ⟨e, he⟩ := Option.isSome_iff_exists.mp hsome
    dsimp only [Message.code, Message.content, Message.calls]
    rw [he, Option.bind_some, cmdHandler, getTaskCmdEntry_cmdcode he, if_neg hne, Option.any_some]
    split
    · rfl
    · rfl
  | response c p =>
    obtain ⟨hhandler, hsome, -⟩ := h
    obtain ⟨e, he, hhandler⟩ := (Option.any_eq_true _ _).mp hhandler
    obtain ⟨r, hr⟩ := Option.isSome_iff_exists.mp hsome
    dsimp only [Message.code, Message.content, Message.calls]
    rw [he, Option.bind_some, cmdHandler, getTaskCmdEntry_cmdcode he, if_pos hhandler, if_pos rfl,
      rspcode_rspBuffer, hr, Option.any_some, Option.map_some, rspBuffer,
      List.drop_left' length_leBytes]
  | instant c p => cases htask

end Sound

/-! ### A packet in the thread's buffer -/

theorem fill_of_lt {l : List UInt8} {e : Content} {i : Nat} (hi : i < l.length) :
    fill l e i = l.getD i 0 :=
  NorMemory.overlay_of_inRange ⟨Nat.zero_le i, by omega⟩ _ _

theorem le_fill {l : List UInt8} {e : Content} {a k : Nat} (h : a + k ≤ l.length) :
    le (fill l e) a k = leAt l a k :=
  le_congr fun i hi => fill_of_lt (by have := hi.2; omega)

/-- The thread reads the packet back from its buffer. -/
theorem rxHandler_fill {p : Message × UInt16} {e : Content} (h : Sound tables n p.1)
    (hn : n ≤ maxDataPacketSize) (htask : p.1.isInstant = false) :
    rxHandler tables (fill (blockOf p) e) = some (p.1.calls tables) := by
  have hlen : (blockOf p).length = p.1.content.length + 6 := length_blockOf
  have hcode : UInt16.ofNat (le (fill (blockOf p) e) 0 2) = p.1.code := by
    rw [le_fill (by omega)]
    exact blockCode_blockOf
  have hpacketlen : le (fill (blockOf p) e) 4 2 = p.1.content.length := by
    have hle := h.length_le hn
    rw [le_fill (by omega), blockOf, leAt_dataPacket.2]
    exact Nat.mod_eq_of_lt (Nat.lt_of_le_of_lt hle (by decide))
  have hcontent : (List.range p.1.content.length).map (fun i => fill (blockOf p) e (6 + i)) =
      p.1.content := by
    refine Eq.trans (List.map_congr_left fun i hi => ?_) map_range_getD
    have hi := List.mem_range.mp hi
    rw [fill_of_lt (by omega)]
    have hdrop : (blockOf p).drop 6 = p.1.content := drop_dataPacket
    rw [← hdrop, List.getD_eq_getElem?_getD, List.getD_eq_getElem?_getD, List.getElem?_drop]
  unfold rxHandler
  dsimp only
  rw [hcode, hpacketlen, hcontent, h.cmdGroup_eq, htask]
  exact h.cmdHandler_eq htask

/-! ### Buffers and slots -/

section Held

variable {α : Type*} {f : α → Option Nat} {x : α} {l r : List α} {used rest : List Nat}

theorem filterMap_cons_eq : (x :: l).filterMap f = (f x).toList ++ l.filterMap f := by
  rw [List.filterMap_cons]
  cases f x with
  | none => rfl
  | some k => rfl

theorem filterMap_middle :
    ((l ++ x :: r).filterMap f).Perm ((f x).toList ++ (l ++ r).filterMap f) := by
  rw [← filterMap_cons_eq]
  exact List.perm_middle.filterMap f

theorem perm_add {o : Option Nat} (h : used.Perm ((l ++ r).filterMap f)) (ho : f x = o) :
    (o.toList ++ used).Perm ((l ++ x :: r).filterMap f) :=
  ho ▸ (h.append_left _).trans filterMap_middle.symm

/-- A buffer that is freed leaves the others. -/
theorem perm_heapFree {o : Option Nat} (h : used.Perm (o.toList ++ rest)) :
    (heapFree used o).Perm rest := by
  cases o with
  | none => exact h
  | some k =>
    have herase := h.erase k
    rwa [Option.toList_some, List.singleton_append, List.erase_cons_head] at herase

theorem perm_mailFree {o : Option Nat} (h : used.Perm (o.toList ++ rest)) :
    (mailFree used o).Perm rest := by
  cases o with
  | none => exact h
  | some k => exact perm_heapFree (o := some k) h

theorem mem_of_perm {o : Option Nat} {k : Nat} (h : used.Perm (o.toList ++ rest))
    (ho : o = some k) : k ∈ used := by
  rw [h.mem_iff, ho]
  exact List.mem_append_left _ (List.mem_singleton_self k)

end Held

/-! ### The packets of a run -/

/-- The messages that have arrived and those on the way; of the former the task packets that the
thread has handled and those in the receive queue. -/
structure Flow (tables : CmdTables) (n : Nat) (s : BridgeLink) (arrived done : List Message)
    (waiting flying : List (Message × UInt16)) : Prop where
  transmitted : s.transmitted.map (·.2) = arrived ++ flying.map (·.1)
  wire : s.wire = flying.map blockOf
  queue : Holds s.receiveQueue (waiting.map blockOf)
  tasks : arrived.filter (·.isInstant == false) = done ++ waiting.map (·.1)
  taskCalls : s.taskCalls = done.flatMap (Message.calls tables)
  instantCalls : s.instantCalls =
    (arrived.filter (·.isInstant == true)).flatMap (Message.calls tables)
  flyingSound : ∀ p ∈ flying, Sound tables n p.1
  waitingSound : ∀ p ∈ waiting, Sound tables n p.1 ∧ p.1.isInstant = false

/-- What a run keeps. -/
structure Inv (tables : CmdTables) (n : Nat) (s : BridgeLink) : Prop where
  queued : s.requested = (s.transmitted.filter (·.1)).map (·.2) ++
    s.mailbox.map fun msg => .ofCmd msg.cmdCode msg.bytes
  heap : s.heap.Perm (s.held.filterMap (·.cmdBuffer))
  pool : s.pool.Perm (s.held.filterMap (·.slot))
  mailboxSound : ∀ msg ∈ s.mailbox, Sound tables n (.ofCmd msg.cmdCode msg.bytes)
  flow : ∃ arrived done waiting flying, Flow tables n s arrived done waiting flying

variable {s t : BridgeLink} {arrived done : List Message} {waiting flying : List (Message × UInt16)}

namespace Flow

theorem expected_task (h : Flow tables n s arrived done waiting flying) :
    s.expected tables false = s.taskCalls ++ ((waiting ++
      flying.filter (·.1.isInstant == false)).map (·.1)).flatMap (Message.calls tables) := by
  rw [BridgeLink.expected, h.transmitted, List.filter_append, h.tasks, List.append_assoc,
    List.flatMap_append, h.taskCalls, List.map_append, List.filter_map]
  rfl

theorem expected_instant (h : Flow tables n s arrived done waiting flying) :
    s.expected tables true = s.instantCalls ++
      ((flying.filter (·.1.isInstant == true)).map (·.1)).flatMap (Message.calls tables) := by
  rw [BridgeLink.expected, h.transmitted, List.filter_append, List.flatMap_append,
    h.instantCalls, List.filter_map]
  rfl

/-- An empty queue holds nothing. -/
theorem waiting_eq_nil (h : Flow tables n s arrived done waiting flying)
    (hlen : s.receiveQueue.lengthOfCQueue = 0) : waiting = [] := by
  cases waiting with
  | nil => rfl
  | cons p rest =>
    have hcontents := h.queue.contents
    have hzero : s.receiveQueue.contents.length = 0 := CQueue.length_contents.trans hlen
    rw [hcontents, List.map_cons, List.flatMap_cons, List.length_append, length_entry] at hzero
    omega

/-- A block is given to the UART. -/
theorem transmit (h : Flow tables n s arrived done waiting flying) (hm : Sound tables n m)
    (queued : Bool) :
    Flow tables n (s.transmit queued m (blockOf (m, cmdseq))) arrived done waiting
      (flying ++ [(m, cmdseq)]) where
  transmitted := by
    dsimp only [BridgeLink.transmit]
    rw [List.map_append, h.transmitted, List.map_append, List.append_assoc]
    rfl
  wire := by
    dsimp only [BridgeLink.transmit]
    rw [h.wire, List.map_append]
    rfl
  queue := h.queue
  tasks := h.tasks
  taskCalls := h.taskCalls
  instantCalls := h.instantCalls
  flyingSound p hp := by
    rcases List.mem_append.mp hp with hp | hp
    · exact h.flyingSound p hp
    · rw [List.mem_singleton.mp hp]
      exact hm
  waitingSound := h.waitingSound

end Flow

/-- The packets get through. -/
theorem Inv.intact (h : Inv tables n s) : Intact tables s := by
  obtain ⟨arrived, done, waiting, flying, hflow⟩ := h.flow
  refine ⟨h.queued, hflow.expected_task ▸ List.prefix_append _ _,
    hflow.expected_instant ▸ List.prefix_append _ _, fun hwire hlen => ?_, h.heap, h.pool⟩
  have hflying : flying = [] := List.map_eq_nil_iff.mp (hflow.wire.symm.trans hwire)
  rw [hflow.expected_task, hflow.expected_instant, hflow.waiting_eq_nil hlen, hflying]
  exact ⟨(List.append_nil _).symm, (List.append_nil _).symm⟩

/-! ### The sender -/

namespace Inv

theorem sendCmd {ptr slot : Option Nat} (h : Inv tables n s) (hn : n ≤ maxDataPacketSize)
    (hg : Admitted tables n s (.sendCmd cmdcode pBuff ptr slot)) :
    ∃ t, s.sendCmd cmdcode pBuff ptr slot = some t ∧ Inv tables n t := by
  obtain ⟨hsound, hptr, hslot⟩ := hg
  obtain ⟨k, rfl⟩ := Option.isSome_iff_exists.mp hslot
  have hlen : pBuff.length ≤ maxXferDataSize := by
    have hle := hsound.length_le hn
    rwa [ofCmd_content] at hle
  obtain ⟨cmdBuffer, hmalloc⟩ : ∃ cmdBuffer, heapMalloc pBuff.length ptr = some cmdBuffer := by
    unfold heapMalloc
    by_cases hpos : 0 < pBuff.length
    · obtain ⟨p, rfl⟩ := Option.isSome_iff_exists.mp (hptr hpos)
      exact ⟨some p, if_pos hpos⟩
    · exact ⟨none, if_neg hpos⟩
  have hsend : s.sendCmd cmdcode pBuff ptr (some k) = some
      { s with
        mailbox := s.mailbox ++ [⟨some k, cmdcode, cmdBuffer, pBuff⟩]
        heap := cmdBuffer.toList ++ s.heap
        pool := k :: s.pool
        requested := s.requested ++ [.ofCmd cmdcode pBuff] } := by
    unfold BridgeLink.sendCmd
    rw [if_pos hlen, hmalloc]
    rfl
  refine ⟨_, hsend, ?_, ?_, ?_, fun msg hmsg => ?_, ?_⟩
  · dsimp only
    rw [h.queued, List.map_append, List.append_assoc]
    rfl
  · dsimp only [BridgeLink.held]
    rw [List.append_assoc, List.singleton_append]
    exact perm_add h.heap rfl
  · dsimp only [BridgeLink.held]
    rw [List.append_assoc, List.singleton_append]
    exact perm_add (o := some k) h.pool rfl
  · rcases List.mem_append.mp hmsg with hmsg | hmsg
    · exact h.mailboxSound msg hmsg
    · rw [List.mem_singleton.mp hmsg]
      exact hsound
  · obtain ⟨arrived, done, waiting, flying, hflow⟩ := h.flow
    exact ⟨arrived, done, waiting, flying, { hflow with }⟩

theorem sendRsp {ptr : Option Nat} (h : Inv tables n s) (hn : n ≤ maxDataPacketSize)
    (hg : Admitted tables n s (.sendRsp cmdcode pBuff ptr)) :
    ∃ t, s.sendRsp tables cmdcode pBuff ptr = some t ∧ Inv tables n t := by
  obtain ⟨hsound, hptr⟩ := hg
  obtain ⟨k, rfl⟩ := Option.isSome_iff_exists.mp hptr
  obtain ⟨e, he, -⟩ := (Option.any_eq_true _ _).mp hsound.1
  have hlen : pBuff.length + 2 ≤ maxXferDataSize := Nat.le_trans hsound.2.2 hn
  have hsend : s.sendRsp tables cmdcode pBuff (some k) = some
      { s.transmit false (.response cmdcode pBuff) (blockOf (.response cmdcode pBuff, s.cmdseq))
        with
        sending := ⟨none, chipTaskCmdRsp, some k, rspBuffer cmdcode pBuff⟩ :: s.sending
        heap := k :: s.heap } := by
    unfold BridgeLink.sendRsp heapMalloc
    rw [if_pos hlen, if_pos (Nat.succ_pos _), Option.map_some, Option.bind_some, he,
      Option.bind_some, hsound.cmdTransmitHandler_eq hn he]
    rfl
  refine ⟨_, hsend, ?_, ?_, ?_, h.mailboxSound, ?_⟩
  · dsimp only [BridgeLink.transmit]
    rw [List.filter_append, List.map_append, h.queued]
    exact congrArg (· ++ _) (List.append_nil _).symm
  · exact perm_add (o := some k) h.heap rfl
  · exact perm_add (o := none) h.pool rfl
  · obtain ⟨arrived, done, waiting, flying, hflow⟩ := h.flow
    exact ⟨arrived, done, waiting, _, { hflow.transmit hsound false with }⟩

theorem sendInstantCmdData (h : Inv tables n s)
    (hg : Admitted tables n s (.sendInstantCmdData cmdcode pBuff)) :
    ∃ t, s.step tables (.sendInstantCmdData cmdcode pBuff) = some t ∧ Inv tables n t := by
  have hsound : Sound tables n (.instant cmdcode pBuff) := hg
  have hsend : s.step tables (.sendInstantCmdData cmdcode pBuff) =
      some (s.transmit false (.instant cmdcode pBuff)
        (blockOf (.instant cmdcode pBuff, s.cmdseq))) := by
    dsimp only [BridgeLink.step]
    unfold ChipBridge.sendInstantCmdData
    rw [if_pos hsound.2.2]
    rfl
  refine ⟨_, hsend, ?_, h.heap, h.pool, h.mailboxSound, ?_⟩
  · dsimp only [BridgeLink.transmit]
    rw [List.filter_append, List.map_append, h.queued]
    exact congrArg (· ++ _) (List.append_nil _).symm
  · obtain ⟨arrived, done, waiting, flying, hflow⟩ := h.flow
    exact ⟨arrived, done, waiting, _, hflow.transmit hsound false⟩

theorem txThread (h : Inv tables n s) (hn : n ≤ maxDataPacketSize) (he : s.Enabled .txThread) :
    ∃ t, s.txThread tables = some t ∧ Inv tables n t := by
  obtain ⟨hne, hidle⟩ := he
  obtain ⟨cmdseq, mailbox, sending, heap, pool, wire, receiveQueue, rcvTmpBuffer, requested,
    transmitted, taskCalls, instantCalls⟩ := s
  cases mailbox with
  | nil => exact absurd rfl hne
  | cons msg rest =>
    have hsound := h.mailboxSound msg List.mem_cons_self
    have hqueued := h.queued
    unfold BridgeLink.txThread
    dsimp only at hidle ⊢
    rw [if_pos hidle, hsound.txBlock_eq hn]
    refine ⟨_, rfl, ?_, ?_, ?_, fun m hm => h.mailboxSound m (List.mem_cons_of_mem _ hm), ?_⟩
    · dsimp only [BridgeLink.transmit] at hqueued ⊢
      rw [hqueued, List.filter_append, List.map_append, List.append_assoc]
      rfl
    · exact h.heap.trans (List.Perm.filterMap _ List.perm_middle.symm)
    · exact h.pool.trans (List.Perm.filterMap _ List.perm_middle.symm)
    · obtain ⟨arrived, done, waiting, flying, hflow⟩ := h.flow
      exact ⟨arrived, done, waiting, _, { hflow.transmit hsound true with }⟩

/-- A message that has been sent is the next one to be freed. -/
theorem perm_sent {i : Nat} {msg : TxMailboxParam} {used : List Nat}
    {f : TxMailboxParam → Option Nat} (hperm : used.Perm (s.held.filterMap f))
    (hmsg : s.sending[i]? = some msg) :
    used.Perm ((f msg).toList ++ (s.mailbox ++ s.sending.eraseIdx i).filterMap f) := by
  obtain ⟨hi, rfl⟩ := List.getElem?_eq_some_iff.mp hmsg
  have hsplit : s.held.Perm (s.mailbox ++ s.sending[i] :: s.sending.eraseIdx i) :=
    (List.getElem_cons_eraseIdx_perm hi).symm.append_left _
  exact hperm.trans ((hsplit.filterMap f).trans filterMap_middle)

theorem sent {i : Nat} (h : Inv tables n s) (he : s.Enabled (.sent i)) :
    ∃ t, s.sent i = some t ∧ Inv tables n t := by
  have hmsg : s.sending[i]? = some s.sending[i] := List.getElem?_eq_getElem he
  unfold BridgeLink.sent
  rw [hmsg]
  refine ⟨_, rfl, h.queued, perm_heapFree (perm_sent h.heap hmsg),
    perm_mailFree (perm_sent h.pool hmsg), h.mailboxSound, ?_⟩
  obtain ⟨arrived, done, waiting, flying, hflow⟩ := h.flow
  exact ⟨arrived, done, waiting, flying, { hflow with }⟩

/-! ### The receiver -/

/-- A block arrives. -/
theorem receive (h : Inv tables n s) (hn : n ≤ maxDataPacketSize)
    (hg : Admitted tables n s .receive) (he : s.Enabled .receive) :
    ∃ t, s.receive tables = some t ∧ Inv tables n t := by
  obtain ⟨arrived, done, waiting, flying, hflow⟩ := h.flow
  cases flying with
  | nil => exact absurd hflow.wire he
  | cons p flying =>
    have hwire : s.wire = blockOf p :: flying.map blockOf := hflow.wire
    have hsound := hflow.flyingSound p List.mem_cons_self
    have hlen := hsound.length_le hn
    have hgroup := hsound.cmdGroup_eq
    have htransmitted : s.transmitted.map (·.2) = (arrived ++ [p.1]) ++ flying.map (·.1) := by
      rw [hflow.transmitted, List.append_assoc]
      rfl
    have hrest : ∀ p ∈ flying, Sound tables n p.1 :=
      fun q hq => hflow.flyingSound q (List.mem_cons_of_mem _ hq)
    have hroom : HasRoom s.receiveQueue s.wire := hg
    unfold BridgeLink.receive
    rw [hwire] at hroom ⊢
    dsimp only [HasRoom] at hroom ⊢
    rw [blockCode_blockOf] at hroom ⊢
    cases hinstant : p.1.isInstant with
    | true =>
      rw [hinstant] at hgroup
      obtain ⟨m, cmdseq⟩ := p
      cases m with
      | command c pBuff => cases hinstant
      | response c pBuff => cases hinstant
      | instant c pBuff =>
        obtain ⟨e, hentry⟩ := Option.isSome_iff_exists.mp hsound.2.1
        have hcontent : ((blockOf (.instant c pBuff, cmdseq)).drop 6).take
            (leAt (blockOf (.instant c pBuff, cmdseq)) 4 2) = pBuff := by
          rw [blockOf, drop_dataPacket, leAt_dataPacket.2,
            Nat.mod_eq_of_lt (Nat.lt_of_le_of_lt hlen (by decide))]
          exact List.take_length
        rw [if_pos (hgroup.trans (if_pos rfl))]
        dsimp only [Message.code]
        rw [hentry, hcontent]
        refine ⟨_, rfl, h.queued, h.heap, h.pool, h.mailboxSound,
          arrived ++ [.instant c pBuff], done, waiting, flying, ?_⟩
        refine ⟨htransmitted, rfl, hflow.queue, ?_, hflow.taskCalls, ?_, hrest,
          hflow.waitingSound⟩
        · rw [List.filter_append, hflow.tasks]
          exact List.append_nil _
        · dsimp only
          rw [List.filter_append, List.flatMap_append, hflow.instantCalls]
          refine congrArg (_ ++ ·) ?_
          show _ = Message.calls tables (.instant c pBuff) ++ []
          rw [List.append_nil, Message.calls, hentry, Option.any_some]
    | false =>
      rw [hinstant] at hgroup
      have hne : cmdGroup p.1.code ≠ cmdGroupInstant := by
        rw [hgroup]
        decide
      have hblock : (blockOf p).length = p.1.content.length + 6 := length_blockOf
      unfold maxDataPacketSize at hlen
      rw [if_neg hne]
      refine ⟨_, rfl, h.queued, h.heap, h.pool, h.mailboxSound, arrived ++ [p.1], done,
        waiting ++ [p], flying, ?_⟩
      refine ⟨htransmitted, rfl, ?_, ?_, hflow.taskCalls, ?_, hrest, fun q hq => ?_⟩
      · rw [List.map_append]
        exact holds_queuePush hflow.queue (by omega) (by omega) (hroom hne)
      · rw [List.filter_append, hflow.tasks, List.map_append, List.append_assoc,
          List.filter_cons_of_pos (by rw [hinstant]; rfl)]
        rfl
      · rw [List.filter_append, List.filter_cons_of_neg (by rw [hinstant]; decide)]
        dsimp only
        rw [hflow.instantCalls, List.filter_nil, List.append_nil]
      · rcases List.mem_append.mp hq with hq | hq
        · exact hflow.waitingSound q hq
        · rw [List.mem_singleton.mp hq]
          exact ⟨hsound, hinstant⟩

/-- The thread handles the oldest packet. -/
theorem rxThread (h : Inv tables n s) (hn : n ≤ rxThreadTmpBufSize - uartHeaderDataSize)
    (he : s.Enabled .rxThread) : ∃ t, s.rxThread tables = some t ∧ Inv tables n t := by
  have hpos : 0 < s.receiveQueue.lengthOfCQueue := he
  obtain ⟨arrived, done, waiting, flying, hflow⟩ := h.flow
  cases waiting with
  | nil =>
    have hcontents := hflow.queue.contents
    have hlen : s.receiveQueue.contents.length = s.receiveQueue.lengthOfCQueue :=
      CQueue.length_contents
    rw [hcontents] at hlen
    exact absurd hlen.symm (Nat.ne_of_gt hpos)
  | cons p waiting =>
    obtain ⟨hsound, htask⟩ := hflow.waitingSound p List.mem_cons_self
    have hmax : n ≤ maxDataPacketSize := Nat.le_trans hn (by decide)
    have hlen := hsound.length_le_of_task htask
    have hblock : (blockOf p).length = p.1.content.length + 6 := length_blockOf
    have hqueue : Holds s.receiveQueue (blockOf p :: waiting.map blockOf) := hflow.queue
    obtain ⟨hpopped, hbuff⟩ := @queuePop_spec _ _ _ s.rcvTmpBuffer hqueue
    have hfits : (blockOf p).length ≤ rxThreadTmpBufSize := by
      unfold rxThreadTmpBufSize uartHeaderDataSize at *
      omega
    unfold BridgeLink.rxThread
    dsimp only
    rw [queueGetNextEntryLength_eq hqueue, if_pos hpos, if_pos hfits, if_pos (by omega), hbuff,
      rxHandler_fill hsound hmax htask]
    refine ⟨_, rfl, h.queued, h.heap, h.pool, h.mailboxSound, arrived, done ++ [p.1], waiting,
      flying, ?_⟩
    refine ⟨hflow.transmitted, hflow.wire, hpopped, ?_, ?_, hflow.instantCalls,
      hflow.flyingSound, fun q hq => hflow.waitingSound q (List.mem_cons_of_mem _ hq)⟩
    · rw [hflow.tasks, List.append_assoc]
      rfl
    · dsimp only
      rw [hflow.taskCalls, List.flatMap_append]
      exact congrArg (_ ++ ·) (List.append_nil _).symm

/-! ### Runs -/

variable {e : LinkEvent}

/-- A step that can happen happens, and keeps the invariant. -/
theorem exists_step (h : Inv tables n s) (hn : n ≤ rxThreadTmpBufSize - uartHeaderDataSize)
    (hg : Admitted tables n s e) (he : s.Enabled e) :
    ∃ t, s.step tables e = some t ∧ Inv tables n t := by
  have hmax : n ≤ maxDataPacketSize := Nat.le_trans hn (by decide)
  cases e with
  | sendCmd cmdCode pBuff ptr slot => exact h.sendCmd hmax hg
  | sendRsp rspCode pBuff ptr => exact h.sendRsp hmax hg
  | sendInstantCmdData cmdcode pBuff => exact h.sendInstantCmdData hg
  | txThread => exact h.txThread hmax he
  | sent i => exact h.sent he
  | receive => exact h.receive hmax hg he
  | rxThread => exact h.rxThread hn he

/-- Only steps that can happen happen. -/
theorem enabled_of_step (ht : s.step tables e = some t) : s.Enabled e := by
  cases e with
  | sendCmd cmdCode pBuff ptr slot => trivial
  | sendRsp rspCode pBuff ptr => trivial
  | sendInstantCmdData cmdcode pBuff => trivial
  | txThread =>
    dsimp only [BridgeLink.step] at ht
    unfold BridgeLink.txThread at ht
    split at ht
    next msg rest hmailbox =>
      split at ht
      next hidle => exact ⟨by simp [hmailbox], hidle⟩
      next => cases ht
    next => cases ht
  | sent i =>
    obtain ⟨msg, hmsg, -⟩ := Option.map_eq_some_iff.mp ht
    exact (List.getElem?_eq_some_iff.mp hmsg).1
  | receive =>
    dsimp only [BridgeLink.step] at ht
    unfold BridgeLink.receive at ht
    split at ht
    next block rest hwire =>
      intro hnil
      rw [hwire] at hnil
      cases hnil
    next => cases ht
  | rxThread =>
    dsimp only [BridgeLink.step] at ht
    unfold BridgeLink.rxThread at ht
    split at ht
    next hpos => exact hpos
    next => cases ht

theorem step (h : Inv tables n s) (hn : n ≤ rxThreadTmpBufSize - uartHeaderDataSize)
    (hg : Admitted tables n s e) (ht : s.step tables e = some t) : Inv tables n t := by
  obtain ⟨u, hu, hinv⟩ := h.exists_step hn hg (enabled_of_step ht)
  exact Option.some.inj (hu.symm.trans ht) ▸ hinv

theorem delivers (h : Inv tables n s) (hn : n ≤ rxThreadTmpBufSize - uartHeaderDataSize)
    (hg : Admitted tables n s e) : Delivers tables s e where
  assertion he := by
    obtain ⟨t, ht, -⟩ := h.exists_step hn hg he
    rw [ht]
    rfl
  freed i msg _ hmsg :=
    ⟨fun _ hp => mem_of_perm (perm_sent h.heap hmsg) hp,
      fun _ hk => mem_of_perm (perm_sent h.pool hmsg) hk⟩
  intact t ht := (h.step hn hg ht).intact

end Inv

/-- Behind `app_chip_bridge_init`, on both sides. -/
def BridgeLink.initial : BridgeLink where
  cmdseq := 0
  mailbox := []
  sending := []
  heap := []
  pool := []
  wire := []
  receiveQueue := .initCQueue rxBuffSize fun _ => 0
  rcvTmpBuffer := fun _ => 0
  requested := []
  transmitted := []
  taskCalls := []
  instantCalls := []

theorem inv_initial : Inv tables n .initial where
  queued := rfl
  heap := .refl _
  pool := .refl _
  mailboxSound _ hmsg := absurd hmsg List.not_mem_nil
  flow := ⟨[], [], [], [], rfl, rfl, holds_init, rfl, rfl, rfl,
    fun _ hp => absurd hp List.not_mem_nil, fun _ hp => absurd hp List.not_mem_nil⟩

/-- Along every run whose task packets leave room for the header in the thread's buffer they get
through. -/
theorem packets_delivered_along {es : List LinkEvent}
    (hes : Along (BridgeLink.step tables)
      (Admitted tables (rxThreadTmpBufSize - uartHeaderDataSize)) .initial es) :
    Along (BridgeLink.step tables) (Delivers tables) .initial es :=
  (hes.strengthen (fun _ _ _ hs hg ht => hs.step le_rfl hg ht) inv_initial).mono
    fun _ _ h => h.1.delivers le_rfl h.2

/-! ### Runs on fixed messages -/

instance decidableSound (tables : CmdTables) (n : Nat) : ∀ m, Decidable (Sound tables n m)
  | .command cmdcode pBuff => inferInstanceAs (Decidable (
      cmdGroup cmdcode = cmdGroupTask ∧ cmdcode ≠ chipTaskCmdRsp ∧
        (tables.getTaskCmdEntry cmdcode).isSome ∧ pBuff.length ≤ n))
  | .response rspCode pBuff => inferInstanceAs (Decidable (
      (tables.getTaskCmdEntry chipTaskCmdRsp).any (·.cmdhandler) ∧
        (tables.getTaskCmdEntry rspCode).isSome ∧ pBuff.length + 2 ≤ n))
  | .instant cmdcode pBuff => inferInstanceAs (Decidable (
      cmdGroup cmdcode = cmdGroupInstant ∧ (tables.getInstantCmdEntry cmdcode).isSome ∧
        pBuff.length ≤ maxDataPacketSize))

instance decidableHasRoom (q : CQueue) : ∀ wire, Decidable (HasRoom q wire)
  | block :: _ => inferInstanceAs (Decidable (cmdGroup (blockCode block) ≠ cmdGroupInstant →
      block.length + 2 ≤ q.availableOfCQueue))
  | [] => isTrue trivial

instance decidableAdmitted (tables : CmdTables) (n : Nat) (s : BridgeLink) :
    ∀ e, Decidable (Admitted tables n s e)
  | .sendCmd cmdCode pBuff ptr slot => inferInstanceAs (Decidable (
      Sound tables n (.ofCmd cmdCode pBuff) ∧ (0 < pBuff.length → ptr.isSome) ∧ slot.isSome))
  | .sendRsp rspCode pBuff ptr => inferInstanceAs (Decidable (
      Sound tables n (.response rspCode pBuff) ∧ ptr.isSome))
  | .sendInstantCmdData cmdcode pBuff => decidableSound tables n (.instant cmdcode pBuff)
  | .txThread => isTrue trivial
  | .sent _ => isTrue trivial
  | .receive => decidableHasRoom s.receiveQueue s.wire
  | .rxThread => isTrue trivial

/-- The commands that `app_chip_bridge.cpp` registers, and an instant command. -/
def linkTables : CmdTables where
  task := [⟨chipTaskCmdRsp, true, 0, false, false⟩, ⟨1, true, 3000, true, true⟩]
  instant := [⟨0x100, true⟩]

/-- A task command of 510 bytes, an instant command and a response of 508 bytes. -/
theorem delivers_longest : Along (BridgeLink.step linkTables) (Delivers linkTables) .initial
    [.sendCmd 1 (.replicate 510 7) (some 0) (some 0), .sendCmd 0x100 [] none (some 1), .txThread,
      .sendRsp 1 (.replicate 508 8) (some 600), .sent 1, .receive, .txThread, .sent 0, .sent 0,
      .receive, .rxThread, .sendInstantCmdData 0x100 (.replicate 516 9), .receive, .receive,
      .rxThread] :=
  packets_delivered_along (by decide +kernel)

/-- The assertion of the thread fails. -/
theorem packets_not_delivered_of_rx {es : List LinkEvent}
    (h : (es.foldlM (BridgeLink.step tables) .initial).map (fun s =>
      decide (0 < s.receiveQueue.lengthOfCQueue) && (s.rxThread tables).isNone) = some true) :
    ¬Along (BridgeLink.step tables) (Delivers tables) .initial (es ++ [.rxThread]) := by
  intro hes
  obtain ⟨s, hs, htrue⟩ := Option.map_eq_some_iff.mp h
  obtain ⟨hpos, hnone⟩ := (Bool.and_eq_true _ _).mp htrue
  have henabled : s.Enabled .rxThread := of_decide_eq_true (p := 0 < _) hpos
  have hsome : (s.rxThread tables).isSome := (hes.last hs).assertion henabled
  rw [Option.isNone_iff_eq_none.mp hnone] at hsome
  cases hsome

/-- A task command of 511 bytes and a response of 509 bytes are sent, and stop the peer. -/
theorem packets_not_delivered :
    (Along (BridgeLink.step linkTables) (Admitted linkTables maxXferDataSize) .initial
        [.sendCmd 1 (.replicate 511 7) (some 0) (some 0), .txThread, .receive, .rxThread] ∧
      ¬Along (BridgeLink.step linkTables) (Delivers linkTables) .initial
        [.sendCmd 1 (.replicate 511 7) (some 0) (some 0), .txThread, .receive, .rxThread]) ∧
    Along (BridgeLink.step linkTables) (Admitted linkTables maxXferDataSize) .initial
        [.sendRsp 1 (.replicate 509 8) (some 0), .receive, .rxThread] ∧
      ¬Along (BridgeLink.step linkTables) (Delivers linkTables) .initial
        [.sendRsp 1 (.replicate 509 8) (some 0), .receive, .rxThread] := by
  refine ⟨⟨by decide +kernel, ?_⟩, by decide +kernel, ?_⟩
  · exact @packets_not_delivered_of_rx _ [_, _, _] (by decide +kernel)
  · exact @packets_not_delivered_of_rx _ [_, _] (by decide +kernel)

end EarbudFirmware.ChipBridge
