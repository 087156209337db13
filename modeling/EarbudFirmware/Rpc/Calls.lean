import EarbudFirmware.Lib.Transition

/-!
# Remote procedure calls between two cores

A call writes its command into the shared transmit buffer, sends it to the other core and waits for
a semaphore. The other core writes its response into the shared receive buffer and raises an
interrupt, whose handler releases the semaphore; the call then reads the receive buffer. Nothing
else ties a response to a command.

## Main definitions

* `RpcSystem` — one core, the buffers, and what is under way to and from the other core
* `RpcSystem.step` — a call, the steps of its wait, the other core, the interrupt
* `Matches` — what a call returns is the response to its own command
* `ReadsOwnResponse` — when a call reads the receive buffer, its own response is there

## Main results

* `matches_run_iff` — the runs whose calls return their own responses
* `matches_run_of_answered` — in particular those without a timeout
-/

namespace EarbudFirmware.Rpc

/-- `rpc_status_t`, without the values that the calls do not return. -/
inductive RpcStatus where
  | rpcOk
  | rpcCmdErr
  | rpcCmdArgErr
  | rpcTimeout
  | rpcNoDev
  deriving DecidableEq

def rpcCmdTag : UInt32 := 0x10000000

def rpcRspTag : UInt32 := 0x20000000

/-- `RPC_HANDSHAKE`. -/
def rpcHandshakeCmd : UInt32 := 0x1001

/-- `RPC_EXEC_CMD`. -/
def rpcExecCmd : UInt32 := 0x1003

def rpcWaitForever : UInt32 := 0xffffffff

/-- The length of `args` in `rpc_pkt`. -/
def rpcArgsMax : Nat := 32

/-- The number of tokens that the semaphore of a core holds. -/
def semMaxCount : Nat := 3

/-- `rpc_pkt`, as it lies in a shared buffer. -/
structure RpcPkt where
  core : UInt32
  cmdRsp : UInt32
  cmdName : Vector UInt8 16
  argsLen : Nat
  args : List UInt8
  deriving DecidableEq

/-- A cleared buffer. -/
def RpcPkt.zero : RpcPkt := ⟨0, 0, .replicate 16 0, 0, .replicate rpcArgsMax 0⟩

/-- `rpc_setup_packet`; no arguments stand for a null pointer as well. The length and the arguments
in the buffer are left alone when there are none. `none` is a failing assertion. -/
def setupPacket (buf : RpcPkt) (core rpcCmd : UInt32) (cmdName : Option (Vector UInt8 16))
    (args : List UInt8) : Option RpcPkt :=
  let buf := { buf with
    core := core
    cmdRsp := rpcCmd
    cmdName := cmdName.getD (.replicate 16 0) }
  if args = [] then some buf
  else if args.length ≤ rpcArgsMax then
    some { buf with argsLen := args.length, args := args ++ buf.args.drop args.length }
  else none

/-- What the other core answers to a command. -/
structure Response where
  cmdRsp : UInt32
  args : List UInt8
  deriving DecidableEq

/-- `rpc_send_rsp` of the other core writes into the buffer that this core receives from. -/
def sendRsp (buf : RpcPkt) (core : UInt32) (r : Response) : Option RpcPkt :=
  setupPacket buf core ((r.cmdRsp &&& 0x0fffffff) ||| rpcRspTag) none r.args

/-- How far a call has come with its wait. -/
inductive WaitPhase where
  | sent
  | blocked
  | acquired
  deriving DecidableEq

/-- A call that waits: the number of the command it has sent, the length of the output arguments it
wants (0 for none), its timeout, and whether it is a handshake. -/
structure RpcCall where
  command : Nat
  outLen : Nat
  timeout : UInt32
  handshake : Bool
  deriving DecidableEq

/-- What a call returns; `outArgs` is what it has copied to the output arguments. -/
structure RpcReturn where
  status : RpcStatus
  outArgs : List UInt8
  deriving DecidableEq

/-- The checks of `rpc_wait_for_complte` on the receive buffer. -/
def RpcPkt.accepted (pkt : RpcPkt) (outLen : Nat) : Bool :=
  pkt.cmdRsp &&& 0x00ffffff = 0 ∧ (outLen = 0 ∨ outLen = pkt.argsLen)

/-- The part of `rpc_wait_for_complte` behind the semaphore. `RPC_CMD_ARG_ERR` comes behind an
assertion. -/
def readResponse (recvArgs : RpcPkt) (outLen : Nat) : RpcReturn :=
  if recvArgs.cmdRsp &&& 0x00ffffff ≠ 0 then ⟨.rpcCmdErr, []⟩
  else if outLen = 0 then ⟨.rpcOk, []⟩
  else if outLen ≠ recvArgs.argsLen then ⟨.rpcCmdArgErr, []⟩
  else ⟨.rpcOk, recvArgs.args.take recvArgs.argsLen⟩

/-- One core, behind `rpc_init`, and its link to the other core. The other core has received `sent`
commands and answered the first ones with `responses`; the interrupts of the last `raised` responses
are not handled yet. -/
structure RpcSystem where
  core : UInt32
  connected : Bool
  semTokens : Nat
  xferBuf : RpcPkt
  rxBuf : RpcPkt
  call : Option (RpcCall × WaitPhase)
  sent : Nat
  responses : List Response
  raised : Nat
  deriving DecidableEq

/-- A step of the core or of its surroundings. -/
inductive RpcEvent where
  | execCmdSync (cmdName : Vector UInt8 16) (inArgs : List UInt8) (outLen : Nat) (timeout : UInt32)
  | handshake (hsMsg : Vector UInt8 32)
  | acquire
  | expire
  | read
  | respond (r : Response)
  | interrupt
  deriving DecidableEq

namespace RpcSystem

/-- Behind `rpc_init`. -/
def init (core : UInt32) : RpcSystem := ⟨core, false, 0, .zero, .zero, none, 0, [], 0⟩

/-- `rpc_send_cmd` up to the wait. -/
def sendCmd (s : RpcSystem) (rpcCmd : UInt32) (cmdName : Option (Vector UInt8 16))
    (inArgs : List UInt8) (outLen : Nat) (timeout : UInt32) (handshake : Bool) :
    Option RpcSystem := do
  let buf ← setupPacket s.xferBuf s.core ((rpcCmd &&& 0x0fffffff) ||| rpcCmdTag) cmdName inArgs
  return { s with
    xferBuf := buf
    call := some (⟨s.sent, outLen, timeout, handshake⟩, .sent)
    sent := s.sent + 1 }

/-- The end of a call. -/
def finish (s : RpcSystem) (c : RpcCall) (r : RpcReturn) : RpcSystem × Option RpcReturn :=
  ({ s with
    connected := s.connected || (c.handshake && r.status = .rpcOk)
    call := none }, some r)

/-- A step, and what the call that ends with it returns. -/
def step (s : RpcSystem) : RpcEvent → Option (RpcSystem × Option RpcReturn)
  | .execCmdSync cmdName inArgs outLen timeout =>
    if s.call ≠ none then none
    else if s.connected = false then some (s, some ⟨.rpcNoDev, []⟩)
    else (s.sendCmd rpcExecCmd (some cmdName) inArgs outLen timeout false).map (·, none)
  | .handshake hsMsg =>
    if s.call ≠ none then none
    -- The response is `rpc_hs_rsp`, and the wait is a second.
    else (s.sendCmd rpcHandshakeCmd none hsMsg.toList 16 1000 true).map (·, none)
  | .acquire =>
    match s.call with
    | some (c, .sent) =>
      if 0 < s.semTokens then
        some ({ s with semTokens := s.semTokens - 1, call := some (c, .acquired) }, none)
      else if c.timeout = 0 then some (s.finish c ⟨.rpcNoDev, []⟩)
      else some ({ s with call := some (c, .blocked) }, none)
    | _ => none
  | .expire =>
    match s.call with
    | some (c, .blocked) =>
      if c.timeout = rpcWaitForever then none else some (s.finish c ⟨.rpcTimeout, []⟩)
    | _ => none
  | .read =>
    match s.call with
    | some (c, .acquired) => some (s.finish c (readResponse s.rxBuf c.outLen))
    | _ => none
  | .respond r =>
    if s.responses.length < s.sent then
      (sendRsp s.rxBuf s.core r).map fun buf =>
        ({ s with rxBuf := buf, responses := s.responses ++ [r], raised := s.raised + 1 }, none)
    else none
  | .interrupt =>
    if s.raised = 0 then none
    else
      -- `rpc_handle_response`: a waiting call gets the token, and a full semaphore loses it.
      match s.call with
      | some (c, .blocked) =>
        some ({ s with raised := s.raised - 1, call := some (c, .acquired) }, none)
      | _ =>
        some ({ s with
          raised := s.raised - 1
          semTokens := min (s.semTokens + 1) semMaxCount }, none)

/-- The state behind a step. -/
def next (s : RpcSystem) (e : RpcEvent) : Option RpcSystem := (s.step e).map (·.1)

end RpcSystem

/-! ### Specification -/

/-- `r` is what the response to the command of `c` says. -/
def IsResponseTo (s : RpcSystem) (c : RpcCall) (r : RpcReturn) : Prop :=
  ∃ rsp, s.responses[c.command]? = some rsp ∧ rsp.cmdRsp &&& 0x00ffffff = 0 ∧
    r.outArgs = if c.outLen = 0 then [] else rsp.args

/-- A call that returns `RPC_OK` returns the response to the command it has sent. -/
def Matches (s : RpcSystem) (e : RpcEvent) : Prop :=
  ∀ t r, s.step e = some (t, some r) → r.status = .rpcOk →
    ∃ c ph, s.call = some (c, ph) ∧ IsResponseTo s c r

/-- When a call reads a receive buffer that passes its checks, the other core has no command left to
answer, and the last response has arguments if the call wants any. -/
def ReadsOwnResponse (s : RpcSystem) (e : RpcEvent) : Prop :=
  e = .read → ∀ c, s.call = some (c, .acquired) → s.rxBuf.accepted c.outLen →
    s.responses.length = s.sent ∧
      (c.outLen = 0 ∨ ∃ rsp, s.responses.getLast? = some rsp ∧ rsp.args ≠ [])

/-! ### The shared receive buffer -/

/-- The buffer holds the response. -/
structure Holds (buf : RpcPkt) (rsp : Response) : Prop where
  status : buf.cmdRsp &&& 0x00ffffff = rsp.cmdRsp &&& 0x00ffffff
  args : rsp.args ≠ [] → buf.argsLen = rsp.args.length ∧ buf.args.take buf.argsLen = rsp.args

variable {s t : RpcSystem} {e : RpcEvent} {c : RpcCall} {ph : WaitPhase} {r : RpcReturn}

/-- The tag of a response does not reach its status. -/
theorem and_rspTag (x : UInt32) :
    ((x &&& 0x0fffffff) ||| rpcRspTag) &&& 0x00ffffff = x &&& 0x00ffffff := by
  have hmask : (0x0fffffff : UInt32) &&& 0x00ffffff = 0x00ffffff := by decide
  have htag : rpcRspTag &&& 0x00ffffff = 0 := by decide
  have hdistrib : ((x &&& 0x0fffffff) ||| rpcRspTag) &&& 0x00ffffff =
      ((x &&& 0x0fffffff) &&& 0x00ffffff) ||| (rpcRspTag &&& 0x00ffffff) := by
    rw [← UInt32.toBitVec_inj]
    exact BitVec.and_or_distrib_right
  rw [hdistrib, UInt32.and_assoc, hmask, htag, UInt32.or_zero]

theorem sendRsp_spec {buf buf' : RpcPkt} {core : UInt32} {rsp : Response}
    (hbuf : buf.args.length = rpcArgsMax) (h : sendRsp buf core rsp = some buf') :
    buf'.args.length = rpcArgsMax ∧ Holds buf' rsp := by
  unfold sendRsp setupPacket at h
  split_ifs at h with hargs hle
  · obtain rfl := Option.some.inj h
    exact ⟨hbuf, and_rspTag _, fun hne => absurd hargs hne⟩
  · obtain rfl := Option.some.inj h
    refine ⟨?_, and_rspTag _, fun _ => ⟨rfl, List.take_left⟩⟩
    rw [List.length_append, List.length_drop, hbuf]
    omega

theorem readResponse_eq_ok {pkt : RpcPkt} {outLen : Nat} :
    (readResponse pkt outLen).status = .rpcOk ↔ pkt.accepted outLen := by
  unfold readResponse RpcPkt.accepted
  split_ifs <;> simp_all

theorem outArgs_readResponse {pkt : RpcPkt} {outLen : Nat} (h : pkt.accepted outLen) :
    (readResponse pkt outLen).outArgs = if outLen = 0 then [] else pkt.args.take pkt.argsLen := by
  unfold RpcPkt.accepted at h
  unfold readResponse
  split_ifs <;> simp_all

/-! ### One step -/

/-- How the buffer, the commands and the responses belong together. -/
structure Linked (s : RpcSystem) : Prop where
  answered_le : s.responses.length ≤ s.sent
  command : ∀ c ph, s.call = some (c, ph) → c.command + 1 = s.sent
  args_length : s.rxBuf.args.length = rpcArgsMax
  last : ∀ rsp, s.responses.getLast? = some rsp → Holds s.rxBuf rsp

theorem linked_init (core : UInt32) : Linked (.init core) :=
  ⟨Nat.le_refl 0, by simp [RpcSystem.init], List.length_replicate, by simp [RpcSystem.init]⟩

/-- Sending a command. -/
theorem RpcSystem.sendCmd_eq_some {rpcCmd : UInt32} {cmdName : Option (Vector UInt8 16)}
    {inArgs : List UInt8} {outLen : Nat} {timeout : UInt32} {handshake : Bool}
    (h : s.sendCmd rpcCmd cmdName inArgs outLen timeout handshake = some t) :
    ∃ buf, t = { s with
      xferBuf := buf
      call := some (⟨s.sent, outLen, timeout, handshake⟩, .sent)
      sent := s.sent + 1 } := by
  obtain ⟨buf, -, ht⟩ := Option.bind_eq_some_iff.1 h
  exact ⟨buf, (Option.some.inj ht).symm⟩

/-- What a step can do. -/
inductive RpcStep (s : RpcSystem) : RpcEvent → RpcSystem → Option RpcReturn → Prop where
  | refuse {ev} (hcall : s.call = none) : RpcStep s ev s (some ⟨.rpcNoDev, []⟩)
  | send {ev} (buf : RpcPkt) (outLen : Nat) (timeout : UInt32) (hs : Bool) (hcall : s.call = none) :
    RpcStep s ev { s with
      xferBuf := buf
      call := some (⟨s.sent, outLen, timeout, hs⟩, .sent)
      sent := s.sent + 1 } none
  | take (c : RpcCall) (hcall : s.call = some (c, .sent)) (htokens : 0 < s.semTokens) :
    RpcStep s .acquire { s with
      semTokens := s.semTokens - 1
      call := some (c, .acquired) } none
  | block (c : RpcCall) (hcall : s.call = some (c, .sent)) (htokens : s.semTokens = 0) :
    RpcStep s .acquire { s with call := some (c, .blocked) } none
  | giveUp {ev} (c : RpcCall) (ph : WaitPhase) (status : RpcStatus) (hcall : s.call = some (c, ph))
    (hev : ev = .acquire ∧ ph = .sent ∧ s.semTokens = 0 ∧ c.timeout = 0 ∨
      ev = .expire ∧ ph = .blocked) (hstatus : status ≠ .rpcOk) :
    RpcStep s ev (s.finish c ⟨status, []⟩).1 (some ⟨status, []⟩)
  | read (c : RpcCall) (hcall : s.call = some (c, .acquired)) :
    RpcStep s .read (s.finish c (readResponse s.rxBuf c.outLen)).1
      (some (readResponse s.rxBuf c.outLen))
  | respond (rsp : Response) (buf : RpcPkt) (hlt : s.responses.length < s.sent)
    (hbuf : sendRsp s.rxBuf s.core rsp = some buf) :
    RpcStep s (.respond rsp) { s with
      rxBuf := buf
      responses := s.responses ++ [rsp]
      raised := s.raised + 1 } none
  | wake (c : RpcCall) (hcall : s.call = some (c, .blocked)) (hraised : 0 < s.raised) :
    RpcStep s .interrupt { s with
      raised := s.raised - 1
      call := some (c, .acquired) } none
  | release (hcall : ∀ c, s.call ≠ some (c, .blocked)) (hraised : 0 < s.raised) :
    RpcStep s .interrupt { s with
      raised := s.raised - 1
      semTokens := min (s.semTokens + 1) semMaxCount } none

theorem RpcSystem.step_cases {ret : Option RpcReturn} (h : s.step e = some (t, ret)) :
    RpcStep s e t ret := by
  cases e with
  | execCmdSync cmdName inArgs outLen timeout =>
    simp only [RpcSystem.step] at h
    split_ifs at h with hcall
    · obtain ⟨rfl, rfl⟩ := Prod.mk.inj (Option.some.inj h)
      exact .refuse (not_not.1 hcall)
    · obtain ⟨u, hu, ht⟩ := Option.map_eq_some_iff.1 h
      obtain ⟨rfl, rfl⟩ := Prod.mk.inj ht
      obtain ⟨buf, rfl⟩ := sendCmd_eq_some hu
      exact .send buf outLen timeout false (not_not.1 hcall)
  | handshake hsMsg =>
    simp only [RpcSystem.step] at h
    split_ifs at h with hcall
    obtain ⟨u, hu, ht⟩ := Option.map_eq_some_iff.1 h
    obtain ⟨rfl, rfl⟩ := Prod.mk.inj ht
    obtain ⟨buf, rfl⟩ := sendCmd_eq_some hu
    exact .send buf 16 1000 true (not_not.1 hcall)
  | acquire =>
    simp only [RpcSystem.step] at h
    split at h
    · next c hcall =>
      split_ifs at h with htokens htimeout
      · obtain ⟨rfl, rfl⟩ := Prod.mk.inj (Option.some.inj h)
        exact .take c hcall htokens
      · obtain ⟨rfl, rfl⟩ := Prod.mk.inj (Option.some.inj h)
        exact .giveUp c _ _ hcall (.inl ⟨rfl, rfl, by omega, htimeout⟩) (by simp)
      · obtain ⟨rfl, rfl⟩ := Prod.mk.inj (Option.some.inj h)
        exact .block c hcall (by omega)
    · simp at h
  | expire =>
    simp only [RpcSystem.step] at h
    split at h
    · next c hcall =>
      split_ifs at h
      obtain ⟨rfl, rfl⟩ := Prod.mk.inj (Option.some.inj h)
      exact .giveUp c _ _ hcall (.inr ⟨rfl, rfl⟩) (by simp)
    · simp at h
  | read =>
    simp only [RpcSystem.step] at h
    split at h
    · next c hcall =>
      obtain ⟨rfl, rfl⟩ := Prod.mk.inj (Option.some.inj h)
      exact .read c hcall
    · simp at h
  | respond rsp =>
    simp only [RpcSystem.step] at h
    split_ifs at h with hlt
    obtain ⟨buf, hbuf, ht⟩ := Option.map_eq_some_iff.1 h
    obtain ⟨rfl, rfl⟩ := Prod.mk.inj ht
    exact .respond rsp buf hlt hbuf
  | interrupt =>
    simp only [RpcSystem.step] at h
    split_ifs at h with hraised
    split at h
    · next c hcall =>
      obtain ⟨rfl, rfl⟩ := Prod.mk.inj (Option.some.inj h)
      exact .wake c hcall (by omega)
    · next hcall =>
      obtain ⟨rfl, rfl⟩ := Prod.mk.inj (Option.some.inj h)
      exact .release hcall (by omega)

theorem Linked.step {ret : Option RpcReturn} (hs : Linked s) (h : RpcStep s e t ret) :
    Linked t := by
  cases h with
  | refuse => exact hs
  | send =>
    refine ⟨Nat.le_succ_of_le hs.answered_le, fun c ph hc => ?_, hs.args_length, hs.last⟩
    obtain ⟨rfl, -⟩ := Prod.mk.inj (Option.some.inj hc)
    rfl
  | take c hcall | block c hcall | wake c hcall =>
    refine ⟨hs.answered_le, fun c' ph hc => ?_, hs.args_length, hs.last⟩
    obtain ⟨rfl, -⟩ := Prod.mk.inj (Option.some.inj hc)
    exact hs.command c _ hcall
  | giveUp | read =>
    exact ⟨hs.answered_le, fun _ _ hc => by simp [RpcSystem.finish] at hc, hs.args_length, hs.last⟩
  | respond rsp buf hlt hbuf =>
    obtain ⟨hargs, hholds⟩ := sendRsp_spec hs.args_length hbuf
    refine ⟨?_, hs.command, hargs, fun rsp' hlast => ?_⟩
    · rw [List.length_append]
      exact hlt
    · rw [List.getLast?_concat] at hlast
      obtain rfl := Option.some.inj hlast
      exact hholds
  | release => exact ⟨hs.answered_le, hs.command, hs.args_length, hs.last⟩

theorem Linked.next (hs : Linked s) (h : s.next e = some t) : Linked t := by
  obtain ⟨⟨u, ret⟩, hstep, rfl⟩ := Option.map_eq_some_iff.1 h
  exact hs.step (RpcSystem.step_cases hstep)

/-- A call that returns `RPC_OK` has read the receive buffer. -/
theorem matches_iff_read : Matches s e ↔ (e = .read → ∀ c, s.call = some (c, .acquired) →
    s.rxBuf.accepted c.outLen → IsResponseTo s c (readResponse s.rxBuf c.outLen)) := by
  constructor
  · rintro h rfl c hcall hacc
    have hstep : s.step .read = some (s.finish c (readResponse s.rxBuf c.outLen)) := by
      simp only [RpcSystem.step, hcall]
    obtain ⟨c', ph, hcall', hrsp⟩ := h _ _ hstep (readResponse_eq_ok.2 hacc)
    obtain ⟨rfl, -⟩ := Prod.mk.inj (Option.some.inj (hcall.symm.trans hcall'))
    exact hrsp
  · intro h t r hstep hok
    cases RpcSystem.step_cases hstep with
    | refuse => cases hok
    | giveUp c ph status _ _ hstatus => exact absurd hok hstatus
    | read c hcall => exact ⟨c, _, hcall, h rfl c hcall (readResponse_eq_ok.1 hok)⟩

/-- An accepted buffer holds the response to the last command exactly when the other core has
answered that command, with arguments if the call wants any. -/
theorem Linked.isResponseTo_iff (hs : Linked s) (hcall : s.call = some (c, ph))
    (hacc : s.rxBuf.accepted c.outLen) :
    IsResponseTo s c (readResponse s.rxBuf c.outLen) ↔
      s.responses.length = s.sent ∧
        (c.outLen = 0 ∨ ∃ rsp, s.responses.getLast? = some rsp ∧ rsp.args ≠ []) := by
  have hcommand := hs.command c ph hcall
  have hout := outArgs_readResponse hacc
  have hlast : ∀ rsp, s.responses.length = s.sent →
      (s.responses[c.command]? = some rsp ↔ s.responses.getLast? = some rsp) := by
    intro rsp hlen
    rw [List.getLast?_eq_getElem?, hlen, ← hcommand, Nat.add_sub_cancel]
  have hcheck : s.rxBuf.cmdRsp &&& 0x00ffffff = 0 ∧
      (c.outLen = 0 ∨ c.outLen = s.rxBuf.argsLen) := by
    simpa [RpcPkt.accepted] using hacc
  constructor
  · rintro ⟨rsp, hrsp, -, hargs⟩
    have hlt : c.command < s.responses.length := (List.getElem?_eq_some_iff.1 hrsp).1
    have hlen : s.responses.length = s.sent := by
      have := hs.answered_le
      omega
    refine ⟨hlen, or_iff_not_imp_left.2 fun hwant => ⟨rsp, (hlast rsp hlen).1 hrsp, ?_⟩⟩
    rw [hout, if_neg hwant, if_neg hwant] at hargs
    intro hnil
    -- The buffer is longer than nothing, so it cannot have given nothing.
    have htake := congrArg List.length hargs
    rw [List.length_take, hs.args_length, hnil, List.length_nil] at htake
    have hmax : 0 < rpcArgsMax := by decide
    have hlen := hcheck.2.resolve_left hwant
    omega
  · rintro ⟨hlen, hwant⟩
    obtain ⟨rsp, hrsp⟩ : ∃ rsp, s.responses[c.command]? = some rsp :=
      ⟨_, List.getElem?_eq_getElem (by omega)⟩
    have hrsp' := (hlast rsp hlen).1 hrsp
    have hholds := hs.last rsp hrsp'
    refine ⟨rsp, hrsp, hholds.status ▸ hcheck.1, ?_⟩
    rw [hout]
    split_ifs with hzero
    · rfl
    · obtain ⟨rsp', hlast', hne⟩ := hwant.resolve_left hzero
      obtain rfl := Option.some.inj (hrsp'.symm.trans hlast')
      exact (hholds.args hne).2

/-- One step returns the response to its call's command exactly when it reads its own response. -/
theorem Linked.matches_iff (hs : Linked s) (e : RpcEvent) : Matches s e ↔ ReadsOwnResponse s e := by
  rw [matches_iff_read]
  refine forall₃_congr fun _ c hcall => ?_
  exact forall_congr' fun hacc => hs.isResponseTo_iff hcall hacc

/-! ### Runs -/

open Transition

/-- The calls of a run return the responses to their commands exactly when each of them reads its
own response. -/
theorem matches_run_iff (core : UInt32) (es : List RpcEvent) :
    Along RpcSystem.next Matches (.init core) es ↔
      Along RpcSystem.next ReadsOwnResponse (.init core) es :=
  along_iff_of_invariant (fun _ e hs => hs.matches_iff e) (fun _ _ _ hs _ h => hs.next h)
    (linked_init core) es

/-- No wait ends without a token, and a response has arguments if the call wants any. -/
def Answered (s : RpcSystem) : RpcEvent → Prop
  | .expire => False
  | .acquire => ∀ c, s.call = some (c, .sent) → s.semTokens = 0 → c.timeout ≠ 0
  | .respond r => ∀ c ph, s.call = some (c, ph) → c.outLen = 0 ∨ r.args ≠ []
  | _ => True

/-- Each command that has been sent, and whose response is not read yet, belongs to the call that
waits. -/
structure OneAtATime (s : RpcSystem) : Prop where
  linked : Linked s
  idle : s.call = none → s.semTokens = 0 ∧ s.raised = 0 ∧ s.responses.length = s.sent
  waiting : ∀ c ph, s.call = some (c, ph) →
    s.semTokens + s.raised + (s.sent - s.responses.length) + (if ph = .acquired then 1 else 0) = 1
  carries : ∀ c ph, s.call = some (c, ph) → s.responses.length = s.sent →
    c.outLen = 0 ∨ ∃ rsp, s.responses.getLast? = some rsp ∧ rsp.args ≠ []

theorem oneAtATime_init (core : UInt32) : OneAtATime (.init core) :=
  ⟨linked_init core, fun _ => ⟨rfl, rfl, rfl⟩, by simp [RpcSystem.init], by simp [RpcSystem.init]⟩

theorem OneAtATime.next (hs : OneAtATime s) (hg : Answered s e) (h : s.next e = some t) :
    OneAtATime t := by
  have ht := hs.linked.next h
  obtain ⟨⟨u, ret⟩, hstep, rfl⟩ := Option.map_eq_some_iff.1 h
  cases RpcSystem.step_cases hstep with
  | refuse => exact hs
  | send buf outLen timeout hsk hcall =>
    obtain ⟨htokens, hraised, hlen⟩ := hs.idle hcall
    refine ⟨ht, by simp, fun c ph hc => ?_, fun c ph hc hlen' => ?_⟩
    · obtain ⟨-, rfl⟩ := Prod.mk.inj (Option.some.inj hc)
      simp [htokens, hraised, hlen]
    · exact absurd (hlen.symm.trans hlen') (Nat.succ_ne_self _).symm
  | take c hcall htokens =>
    have hwait := hs.waiting c _ hcall
    refine ⟨ht, by simp, fun c' ph hc => ?_, fun c' ph hc hlen => ?_⟩
    · obtain ⟨-, rfl⟩ := Prod.mk.inj (Option.some.inj hc)
      simp only [reduceCtorEq, if_false, if_true] at hwait ⊢
      omega
    · obtain ⟨rfl, -⟩ := Prod.mk.inj (Option.some.inj hc)
      exact hs.carries c _ hcall hlen
  | block c hcall htokens =>
    have hwait := hs.waiting c _ hcall
    refine ⟨ht, by simp, fun c' ph hc => ?_, fun c' ph hc hlen => ?_⟩
    · obtain ⟨-, rfl⟩ := Prod.mk.inj (Option.some.inj hc)
      simpa using hwait
    · obtain ⟨rfl, -⟩ := Prod.mk.inj (Option.some.inj hc)
      exact hs.carries c _ hcall hlen
  | giveUp c ph status hcall hev =>
    rcases hev with ⟨rfl, rfl, htokens, htimeout⟩ | ⟨rfl, -⟩
    · exact absurd htimeout (hg c hcall htokens)
    · exact hg.elim
  | read c hcall =>
    have hwait := hs.waiting c _ hcall
    have hle := hs.linked.answered_le
    rw [if_pos rfl] at hwait
    refine ⟨ht, fun _ => ⟨?_, ?_, ?_⟩, by simp [RpcSystem.finish], by simp [RpcSystem.finish]⟩
    all_goals
      simp only [RpcSystem.finish]
      omega
  | respond rsp buf hlt hbuf =>
    refine ⟨ht, fun hcall => ?_, fun c ph hcall => ?_, fun c ph hcall _ => ?_⟩
    · have := (hs.idle hcall).2.2
      omega
    · have hwait := hs.waiting c ph hcall
      simp only [List.length_append, List.length_singleton]
      omega
    · refine (hg c ph hcall).imp_right fun hne => ⟨rsp, ?_, hne⟩
      exact List.getLast?_concat
  | wake c hcall hraised =>
    have hwait := hs.waiting c _ hcall
    refine ⟨ht, by simp, fun c' ph hc => ?_, fun c' ph hc hlen => ?_⟩
    · obtain ⟨-, rfl⟩ := Prod.mk.inj (Option.some.inj hc)
      simp only [reduceCtorEq, if_false, if_true] at hwait ⊢
      omega
    · obtain ⟨rfl, -⟩ := Prod.mk.inj (Option.some.inj hc)
      exact hs.carries c _ hcall hlen
  | release hcall hraised =>
    refine ⟨ht, fun hnone => ?_, fun c ph hc => ?_, hs.carries⟩
    · have := (hs.idle hnone).2.1
      omega
    · have hwait := hs.waiting c ph hc
      simp only [semMaxCount]
      omega

theorem OneAtATime.readsOwnResponse (hs : OneAtATime s) (e : RpcEvent) : ReadsOwnResponse s e := by
  rintro - c hcall -
  have hwait := hs.waiting c _ hcall
  have hle := hs.linked.answered_le
  rw [if_pos rfl] at hwait
  have hlen : s.responses.length = s.sent := by omega
  exact ⟨hlen, hs.carries c _ hcall hlen⟩

/-- As long as no wait ends without its response, every call returns the response to its own
command. -/
theorem matches_run_of_answered (core : UInt32) (es : List RpcEvent)
    (hes : Along RpcSystem.next Answered (.init core) es) :
    Along RpcSystem.next Matches (.init core) es := by
  refine (hes.strengthen (fun _ _ _ hs hg h => hs.next hg h) (oneAtATime_init core)).mono ?_
  exact fun _ e hs => (hs.1.linked.matches_iff e).2 (hs.1.readsOwnResponse e)

/-! ### A late response -/

/-- After the handshake, a call times out; its response comes before the next call. -/
def lateRun : List RpcEvent :=
  [.handshake (.replicate 32 0), .acquire, .respond ⟨0, List.replicate 16 0⟩, .interrupt, .read,
    .execCmdSync (.replicate 16 1) [] 1 100, .acquire, .expire,
    .respond ⟨0, [7]⟩, .interrupt,
    .execCmdSync (.replicate 16 2) [] 1 100, .acquire]

/-- The next call returns the late response, before the other core has answered its command. -/
theorem not_matches_lateRun :
    ¬ Along RpcSystem.next Matches (.init 2) (lateRun ++ [.read]) := by
  have hrun : (lateRun.foldlM RpcSystem.next (.init 2)).map (fun t =>
      (t.call, t.rxBuf.accepted 1, t.responses)) =
      some (some (⟨2, 1, 100, false⟩, .acquired), true, [⟨0, List.replicate 16 0⟩, ⟨0, [7]⟩]) := by
    decide +kernel
  obtain ⟨t, ht, htup⟩ := Option.map_eq_some_iff.1 hrun
  obtain ⟨hcall, hacc, hresp⟩ : _ ∧ _ ∧ _ := by simpa using htup
  intro h
  have hread := ((along_append.1 h).2 t ht).1
  obtain ⟨rsp, hrsp, -⟩ := matches_iff_read.1 hread rfl _ hcall hacc
  simp [hresp] at hrsp

end EarbudFirmware.Rpc
