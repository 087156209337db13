import EarbudFirmware.Apps.ChipBridge
import EarbudFirmware.Lib.Transition

/-!
# Commands of the chip bridge that wait for their response

The transmit thread sends a command and waits for a token of one semaphore, which the handler of any
response releases. The peer answers each command at most once, at any later moment.

## Main definitions

* `BridgeWait.step` — one call, response or timeout
* `ReleasedByResponse` — how a call returns
* `Undisturbed` — the steps after which calls return so

## Main results

* `releasedByResponse_iff` — the runs in which every call returns so
* `not_releasedByResponse` — a late response releases the next call
-/

namespace EarbudFirmware.ChipBridge

open Transition

/-- `osRtxSemaphoreTokenLimit`. -/
def semaphoreTokenLimit : Nat := 65535

/-- A call of `app_chip_bridge_send_data_with_waiting_rsp` that waits: the number of its command,
the entry, and whether the response to it has been handled meanwhile. -/
structure WaitingCall where
  number : Nat
  entry : TaskCmdInstance
  answered : Bool

/-- How a call has returned. -/
structure Returned where
  ranTimeoutHandle : Bool
  answered : Bool

/-- The tokens of `app_chip_bridge_wait_cmd_rsp_id`, the codes of the commands that have been sent,
the numbers of those without a response so far, the call that waits, and the one that the last event
has let return. -/
structure BridgeWait where
  chipCmdseq : UInt16
  tokens : Nat
  sent : List UInt16
  unanswered : List Nat
  waiting : Option WaitingCall
  returned : Option Returned

/-- The events. A response has the number of the command that it answers. -/
inductive WaitEvent
  | sendDataWithWaitingRsp (cmdcode : UInt16) (pBuff : List UInt8)
  | response (number : Nat) (pBuff : List UInt8)
  | timeout

namespace BridgeWait

variable (tables : CmdTables) (s : BridgeWait)

/-- `app_chip_bridge_transmit_data`, and the wait, which takes a token at once when there is one. -/
def send (e : TaskCmdInstance) : BridgeWait :=
  let s' := { s with
    chipCmdseq := s.chipCmdseq + 1
    sent := s.sent ++ [e.cmdcode]
    unanswered := s.unanswered ++ [s.sent.length] }
  if 0 < s.tokens then
    { s' with
      tokens := s.tokens - 1
      returned := some ⟨false, false⟩ }
  else
    { s' with
      waiting := some ⟨s.sent.length, e, false⟩
      returned := none }

/-- The call that waits, once the response to the command `n` is handled. -/
def heard (n : Nat) : Option WaitingCall :=
  s.waiting.map fun c => { c with answered := c.answered || c.number == n }

/-- `osSemaphoreRelease`, which wakes the thread that waits. -/
def release (n : Nat) : BridgeWait :=
  match s.heard n with
  | some c =>
    { s with
      waiting := none
      returned := some ⟨false, c.answered⟩ }
  | none =>
    { s with
      tokens := if s.tokens < semaphoreTokenLimit then s.tokens + 1 else s.tokens
      returned := none }

/-- `app_chip_bridge_cmd_rsp_handler`, for the command `n` with this code. -/
def respond (n : Nat) (cmdcode : UInt16) (pBuff : List UInt8) : Option BridgeWait :=
  (cmdRspHandler tables (rspBuffer cmdcode pBuff)).map fun released =>
    let s := { s with unanswered := s.unanswered.erase n }
    if released then s.release n
    else
      { s with
        waiting := s.heard n
        returned := none }

/-- One event, if it can happen and no assertion fails. -/
def step : WaitEvent → Option BridgeWait
  | .sendDataWithWaitingRsp cmdcode pBuff =>
    match s.waiting, tables.getTaskCmdEntry cmdcode, transmitData cmdcode s.chipCmdseq pBuff with
    | none, some e, some _ => if 0 < e.waitRspTimeoutMs then some (s.send e) else none
    | _, _, _ => none
  | .response n pBuff =>
    s.sent[n]?.bind fun cmdcode =>
      if s.unanswered.contains n then s.respond tables n cmdcode pBuff else none
  | .timeout =>
    s.waiting.map fun c =>
      { s with
        waiting := none
        returned := some ⟨c.entry.waitRspTimeoutHandle, c.answered⟩ }

end BridgeWait

/-- A call that has returned has not run its timeout handler exactly when the response to its own
command has been handled during its wait. -/
def ReleasedByResponse (s : BridgeWait) : Prop :=
  ∀ r, s.returned = some r → (r.ranTimeoutHandle = false ↔ r.answered = true)

/-- No token is left over when a call begins. A response that releases the call is the one to its
command, or comes after that. A call that times out has a timeout handler exactly when its response
has not been handled. -/
def Undisturbed (tables : CmdTables) (s : BridgeWait) : WaitEvent → Prop
  | .sendDataWithWaitingRsp .. => s.tokens = 0
  | .response n _ => ∀ c, s.waiting = some c → ∀ cmdcode, s.sent[n]? = some cmdcode →
      (∃ e, tables.getTaskCmdEntry cmdcode = some e ∧ e.rspHandle = true ∧
        0 < e.waitRspTimeoutMs) → c.number = n ∨ c.answered = true
  | .timeout => ∀ c, s.waiting = some c → (c.entry.waitRspTimeoutHandle = true ↔ c.answered = false)

variable {tables : CmdTables} {s t : BridgeWait}

/-! ### One event -/

theorem releasedByResponse_of_none (h : s.returned = none) : ReleasedByResponse s :=
  fun r hr => absurd (h.symm.trans hr) (Option.some_ne_none r).symm

theorem releasedByResponse_some {r : Returned} (h : s.returned = some r) :
    ReleasedByResponse s ↔ (r.ranTimeoutHandle = false ↔ r.answered = true) := by
  refine ⟨fun hs => hs r h, fun hr r' hr' => ?_⟩
  obtain rfl := Option.some.inj (h.symm.trans hr')
  exact hr

theorem send_returns (e : TaskCmdInstance) :
    ReleasedByResponse (s.send e) ↔ s.tokens = 0 := by
  unfold BridgeWait.send
  by_cases htokens : 0 < s.tokens
  · rw [if_pos htokens, releasedByResponse_some rfl]
    exact iff_of_false (fun h => Bool.noConfusion (h.mp rfl)) (Nat.ne_of_gt htokens)
  · rw [if_neg htokens]
    exact iff_of_true (releasedByResponse_of_none rfl) (Nat.eq_zero_of_not_pos htokens)

/-- A release lets the call return that waits. -/
theorem release_returns (n : Nat) :
    ReleasedByResponse (s.release n) ↔
      ∀ c, s.waiting = some c → c.number = n ∨ c.answered = true := by
  cases hwaiting : s.waiting with
  | none =>
    have hheard : s.heard n = none := by rw [BridgeWait.heard, hwaiting]; rfl
    refine iff_of_true (releasedByResponse_of_none ?_) (fun c hc => nomatch hc)
    rw [BridgeWait.release, hheard]
  | some c =>
    have hheard : s.heard n = some { c with answered := c.answered || c.number == n } := by
      rw [BridgeWait.heard, hwaiting]
      rfl
    have hreturned : (s.release n).returned = some ⟨false, c.answered || c.number == n⟩ := by
      rw [BridgeWait.release, hheard]
    rw [releasedByResponse_some hreturned]
    simp only [Bool.or_eq_true, beq_iff_eq, true_iff, Option.some.injEq, forall_eq']
    exact or_comm

/-- An event lets calls return as they should exactly when it does not disturb them. -/
theorem releasedByResponse_step {e : WaitEvent} (ht : s.step tables e = some t) :
    ReleasedByResponse t ↔ Undisturbed tables s e := by
  cases e with
  | sendDataWithWaitingRsp cmdcode pBuff =>
    dsimp only [BridgeWait.step] at ht
    split at ht
    · split at ht
      · obtain rfl := Option.some.inj ht
        exact send_returns _
      · cases ht
    · cases ht
  | response n pBuff =>
    obtain ⟨cmdcode, hsent, ht⟩ := Option.bind_eq_some_iff.mp ht
    split at ht
    · rw [BridgeWait.respond, cmdRspHandler_rspBuffer, Option.map_map] at ht
      obtain ⟨e, hentry, rfl⟩ := Option.map_eq_some_iff.mp ht
      have hguard : Undisturbed tables s (.response n pBuff) ↔
          (e.rspHandle = true ∧ 0 < e.waitRspTimeoutMs →
            ∀ c, s.waiting = some c → c.number = n ∨ c.answered = true) := by
        simp only [Undisturbed, hsent, hentry, Option.some.injEq, forall_eq', exists_eq_left']
        exact ⟨fun h he c hc => h c hc he, fun h c hc he => h he c hc⟩
      rw [hguard]
      dsimp only [Function.comp_apply]
      by_cases hreleased : e.rspHandle = true ∧ 0 < e.waitRspTimeoutMs
      · rw [if_pos (by simpa using hreleased), release_returns]
        exact ⟨fun h _ => h, fun h => h hreleased⟩
      · rw [if_neg (by simpa using hreleased)]
        exact iff_of_true (releasedByResponse_of_none rfl) (fun he => absurd he hreleased)
    · cases ht
  | timeout =>
    obtain ⟨c, hc, rfl⟩ := Option.map_eq_some_iff.mp ht
    rw [releasedByResponse_some rfl]
    simp only [Undisturbed, hc, Option.some.injEq, forall_eq']
    cases c.entry.waitRspTimeoutHandle <;> cases c.answered <;> decide

/-! ### Runs -/

/-- Behind `app_chip_bridge_init`. -/
def BridgeWait.initial : BridgeWait := ⟨0, 0, [], [], none, none⟩

/-- Every call of a run returns as it should exactly when no step disturbs it. -/
theorem releasedByResponse_iff {es : List WaitEvent}
    (hrun : es.foldlM (BridgeWait.step tables) .initial = some t) :
    (∀ fs u, fs <+: es → fs.foldlM (BridgeWait.step tables) .initial = some u →
        ReleasedByResponse u) ↔
      Along (BridgeWait.step tables) (Undisturbed tables) .initial es :=
  always_iff_along (fun _ _ _ _ ht => releasedByResponse_step ht) hrun
    (releasedByResponse_of_none rfl)

/-- The commands that `app_chip_bridge.cpp` registers: the response, and `SET_TEST_MODE_CMD`. -/
def testTables : CmdTables where
  task := [⟨chipTaskCmdRsp, true, 0, false, false⟩, ⟨1, true, 3000, true, true⟩]
  instant := []

/-- A call is released, another one times out and is repeated, and the last one is released. -/
theorem releasedByResponse_repeated :
    ([.sendDataWithWaitingRsp 1 [7], .response 0 [7], .sendDataWithWaitingRsp 1 [8],
        .timeout, .sendDataWithWaitingRsp 1 [8], .response 2 [8]].foldlM
      (BridgeWait.step testTables) .initial).isSome = true ∧
    ∀ fs u, fs <+: [.sendDataWithWaitingRsp 1 [7], .response 0 [7], .sendDataWithWaitingRsp 1 [8],
        .timeout, .sendDataWithWaitingRsp 1 [8], .response 2 [8]] →
      fs.foldlM (BridgeWait.step testTables) .initial = some u → ReleasedByResponse u := by
  refine ⟨rfl, (@releasedByResponse_iff testTables _ _ rfl).mpr ⟨rfl, fun _ h => ?_⟩⟩
  obtain rfl := Option.some.inj h
  refine ⟨fun c hc _ _ _ => ?_, fun _ h => ?_⟩
  · obtain rfl := Option.some.inj hc
    exact .inl rfl
  obtain rfl := Option.some.inj h
  refine ⟨rfl, fun _ h => ?_⟩
  obtain rfl := Option.some.inj h
  refine ⟨fun c hc => ?_, fun _ h => ?_⟩
  · obtain rfl := Option.some.inj hc
    decide
  obtain rfl := Option.some.inj h
  refine ⟨rfl, fun _ h => ?_⟩
  obtain rfl := Option.some.inj h
  refine ⟨fun c hc _ _ _ => ?_, fun _ _ => trivial⟩
  obtain rfl := Option.some.inj hc
  exact .inl rfl

/-- The response comes after the timeout, and releases the call that repeats the command, before or
during its wait. -/
theorem not_releasedByResponse :
    (¬∀ fs u, fs <+: [.sendDataWithWaitingRsp 1 [7], .timeout, .response 0 [7],
        .sendDataWithWaitingRsp 1 [8]] →
      fs.foldlM (BridgeWait.step testTables) .initial = some u → ReleasedByResponse u) ∧
    ¬∀ fs u, fs <+: [.sendDataWithWaitingRsp 1 [7], .timeout, .sendDataWithWaitingRsp 1 [7],
        .response 0 [7]] →
      fs.foldlM (BridgeWait.step testTables) .initial = some u → ReleasedByResponse u := by
  refine ⟨fun h => ?_, fun h => ?_⟩
  · exact Bool.noConfusion ((h _ _ (List.prefix_refl _) rfl _ rfl).mp rfl)
  · exact Bool.noConfusion ((h _ _ (List.prefix_refl _) rfl _ rfl).mp rfl)

end EarbudFirmware.ChipBridge
