import EarbudFirmware.Ble.CustomCmd
import EarbudFirmware.Tota.Supervision

/-!
# Supervision of custom commands

A custom command waits from the time it is sent until its response handler has been called. Where no
assertion of a refresh fails, the operations on the list are those of TOTA, and so is the invariant.
The commands that wait are supervised as long as a command is sent that the lookup finds, with a
timeout that is no less than what is left for the others; a response is for a command whose index is
its code; and every refresh comes while there is time left for all entries.

## Main definitions

* `step` — one event, with the commands that wait
* `CallsHandlers` — one event calls the response handlers it has to
* `Supervisable` — the events that are handled as they should

## Main results

* `removeWaitingRsp_eq`, `addWaitingRsp_eq` — the operations where no assertion fails
* `keepsSupervision_along` — waiting commands are supervised along such events
* `not_keepsSupervision` — a command that the lookup does not find, and a response that leaves the
  entry of its command
-/

namespace EarbudFirmware.CustomCmd

open Transition (Along)
open Tota (CmdInstance SupervisorBuild Supervisor WaitingRsp CmdRsp HandlerCall Supervision Watched
  Listed)

/-- The place of the command that waits for a response after this call of
`BLE_send_custom_command`. -/
def CustomCmdBuild.awaited (b : CustomCmdBuild) (cmdCode : Nat) (param : List UInt8) : Option Nat :=
  if cmdCode < opCommandCount ∧ param.length ≤ sizeofParam then
    (b.getEntryPointerFromCmdCode cmdCode).filter fun i => (b.table[i]?).any (·.isNeedResponse)
  else none

/-- The commands that wait after an event at the time `t` that made these calls. -/
def pendingAfter (b : CustomCmdBuild) (h : Supervision) (t : Nat) (calls : List HandlerCall) :
    CustomCmdOp → Nat → Option Nat
  | .send cmdCode param _ =>
    match b.awaited cmdCode param with
    | some i => Function.update h.pending i (some (b.supervisor.osTick t))
    | none => h.pending
  | _ => fun i => if i ∈ calls.map (·.entryIndex) then none else h.pending i

/-- One event, with the commands that wait. -/
def step (b : CustomCmdBuild) (h : Supervision) (e : CustomCmdEvent) : Option Supervision :=
  (customCmdStep b h.s e).map fun r => ⟨r.1, pendingAfter b h (h.s.now + e.wait) r.2 e.op⟩

/-- The event can happen: a command of the table is sent, and the list is not full when it needs a
response; the timer is due when it runs out; and a callback is queued when one runs. -/
def Enabled (b : CustomCmdBuild) (s : Supervisor) (e : CustomCmdEvent) : Prop :=
  match e.op with
  | .send cmdCode param _ =>
    cmdCode < opCommandCount → param.length ≤ sizeofParam →
      (b.getEntryPointerFromCmdCode cmdCode).isSome ∧
        ((b.awaited cmdCode param).isSome → s.waiting.length < waitingRspTimeoutCount)
  | .response _ _ => True
  | .expire =>
    ∃ timer, s.timer = some timer ∧
      timer.start + timer.delay ≤ b.supervisor.osTick (s.now + e.wait + e.lag)
  | .callback => s.queued ≠ 0

/-- The response handlers that an event has to call: the one of the waiting command that a response
is for, and the one of a waiting command whose timeout has passed. -/
def CallsHandlers (b : CustomCmdBuild) (h : Supervision) (e : CustomCmdEvent)
    (calls : List HandlerCall) : Prop :=
  match e.op with
  | .send _ _ _ => calls = []
  | .response rsp paramLen =>
    (∀ i, b.getEntryPointerFromCmdCode rsp.cmdCodeToRsp = some i → paramLen ≤ sizeofRsp →
        (h.pending i).isSome → calls = [.response i rsp]) ∧
      ((∀ i, b.getEntryPointerFromCmdCode rsp.cmdCodeToRsp = some i → paramLen ≤ sizeofRsp →
        h.pending i = none) → calls = [])
  | .expire => calls = []
  | .callback =>
    ∃ i sent c, calls = [.timeout i] ∧ h.pending i = some sent ∧ b.table[i]? = some c ∧
      sent + c.timeoutWaitingRspInMs ≤ b.supervisor.osTick (h.s.now + e.wait + e.lag)

/-- An event is handled, and leaves the waiting commands supervised. -/
def KeepsSupervision (b : CustomCmdBuild) (h : Supervision) (e : CustomCmdEvent) : Prop :=
  Enabled b h.s e →
    ∃ s calls, customCmdStep b h.s e = some (s, calls) ∧ CallsHandlers b h e calls ∧
      (Supervision.mk s (pendingAfter b h (h.s.now + e.wait) calls e.op)).Supervised

/-- The events that are handled as they should. A command that is sent is found by the lookup; one
that needs a response has a handler and a timeout that no other entry exceeds. A response is for a
waiting command whose code is its index, or there is no handler and no entry with that index. When
the list is refreshed, time is left for all its entries; and nothing comes between an expiry and its
callback. -/
def Supervisable (b : CustomCmdBuild) (s : Supervisor) (e : CustomCmdEvent) : Prop :=
  match e.op with
  | .send cmdCode param _ =>
    cmdCode < opCommandCount → param.length ≤ sizeofParam →
      ∃ i c, b.getEntryPointerFromCmdCode cmdCode = some i ∧ b.table[i]? = some c ∧
        b.getEntryIndexFromCmdCode cmdCode = i ∧
        (c.isNeedResponse = true → s.queued = 0 ∧ c.hasCmdRspHandler = true ∧
          0 < c.timeoutWaitingRspInMs ∧
          ∀ x ∈ s.waiting, 0 < s.msLeft b.supervisor (s.now + e.wait) x ∧
            (x.entryIndex ≠ i →
              s.msLeft b.supervisor (s.now + e.wait) x ≤ c.timeoutWaitingRspInMs))
  | .response rsp paramLen =>
    paramLen ≤ sizeofRsp → s.waiting ≠ [] →
      ∀ i, b.getEntryPointerFromCmdCode rsp.cmdCodeToRsp = some i →
        if i ∈ s.waiting.map (·.entryIndex) then
          rsp.cmdCodeToRsp = i ∧ s.queued = 0 ∧
            ∀ x ∈ s.waiting, x.entryIndex ≠ i → 0 < s.msLeft b.supervisor (s.now + e.wait) x
        else rsp.cmdCodeToRsp ∉ s.waiting.map (·.entryIndex) ∧
          ∀ c, b.table[i]? = some c → c.hasCmdRspHandler = false
  | .expire => True
  | .callback => ∀ x ∈ s.waiting.tail, 0 < s.msLeft b.supervisor (s.now + e.wait) x

/-! ### The operations where no assertion fails -/

section Operations

variable {b : SupervisorBuild} {s : Supervisor} {i t u : Nat}

theorem refreshSupervisorEnv_eq (hpos : ∀ x ∈ s.waiting, 0 < s.msLeft b t x) :
    refreshSupervisorEnv s b t u = some (s.refresh b t u) :=
  if_pos fun x hx => Nat.sub_pos_iff_lt.1 (hpos x hx)

/-- The other entries have time left when one is taken out. -/
theorem removeWaitingRsp_eq (hd : (s.waiting.map (·.entryIndex)).Nodup)
    (hpos : ∀ x ∈ s.waiting, x.entryIndex ≠ i → 0 < s.msLeft b t x) :
    removeWaitingRsp s b i t u = s.removeWaitingRsp b i t u := by
  unfold removeWaitingRsp Supervisor.removeWaitingRsp
  split_ifs with hnil
  · rfl
  cases hf : s.waiting.findIdx? (·.entryIndex = i) with
  | none => rfl
  | some index =>
    have hkept := Keyed.eraseIdx_findIdx? hd hf
    have hrefresh : refreshSupervisorEnv { s with waiting := s.waiting.eraseIdx index } b t u =
        some ({ s with waiting := s.waiting.eraseIdx index }.refresh b t u) := by
      refine refreshSupervisorEnv_eq fun x hx => ?_
      rw [hkept] at hx
      obtain ⟨hmem, hne⟩ := List.mem_filter.1 hx
      exact hpos x hmem (by simpa using hne)
    simp only [hrefresh, Option.map_some]

/-- All entries have time left when one is added. -/
theorem addWaitingRsp_eq (hpos : ∀ x ∈ s.waiting, 0 < s.msLeft b t x) :
    addWaitingRsp s b i t u = s.addWaitingRsp b i t u := by
  unfold addWaitingRsp Supervisor.addWaitingRsp
  rw [refreshSupervisorEnv_eq hpos]
  rfl

end Operations

/-! ### Events -/

section Events

variable {b : CustomCmdBuild} {h : Supervision} {e : CustomCmdEvent} {last : Nat}

/-- An event is handled, and the invariant holds again. -/
def Handled (b : CustomCmdBuild) (h : Supervision) (e : CustomCmdEvent) : Prop :=
  ∃ s calls last, customCmdStep b h.s e = some (s, calls) ∧ CallsHandlers b h e calls ∧
    Watched b.supervisor ⟨s, pendingAfter b h (h.s.now + e.wait) calls e.op⟩ last

theorem getElem?_supervisor {i : Nat} {c : CustomCmdInstance} (hc : b.table[i]? = some c) :
    b.supervisor.table[i]? = some c.toCmdInstance := by
  change (b.table.map (·.toCmdInstance))[i]? = _
  rw [List.getElem?_map, hc]
  rfl

theorem exists_of_supervisor {i : Nat} {c : CmdInstance}
    (hc : b.supervisor.table[i]? = some c) :
    ∃ c', b.table[i]? = some c' ∧ c'.toCmdInstance = c := by
  change (b.table.map (·.toCmdInstance))[i]? = _ at hc
  rw [List.getElem?_map] at hc
  exact Option.map_eq_some_iff.1 hc

theorem CustomCmdBuild.awaited_eq {cmdCode i : Nat} {param : List UInt8} {c : CustomCmdInstance}
    (hcode : cmdCode < opCommandCount) (hparam : param.length ≤ sizeofParam)
    (hi : b.getEntryPointerFromCmdCode cmdCode = some i) (hc : b.table[i]? = some c) :
    b.awaited cmdCode param = if c.isNeedResponse then some i else none := by
  rw [awaited, if_pos ⟨hcode, hparam⟩, hi, Option.filter_some, hc]
  rfl

/-- A command that the lookup finds is sent, and then supervised if it needs a response. -/
theorem sendCustomCommand_eq {s : Supervisor} {cmdCode i t u : Nat} {param : List UInt8}
    {path : TransmissionPath} {c : CustomCmdInstance} (hcode : cmdCode < opCommandCount)
    (hparam : param.length ≤ sizeofParam) (hlookup : b.getEntryIndexFromCmdCode cmdCode = i)
    (hc : b.table[i]? = some c) :
    sendCustomCommand s b cmdCode param path t u =
      (if c.isNeedResponse then addWaitingRsp s b.supervisor i t u else some s).map
        fun s => (s, some (path, ⟨cmdCode, param⟩), .noError) := by
  simp only [sendCustomCommand, if_neg (Nat.not_le.2 hcode), if_neg (Nat.not_lt.2 hparam), hlookup,
    hc, Option.map_eq_bind, Option.bind_eq_bind, Option.bind_some]
  rfl

/-- A call that sends nothing, or a command that needs no response. -/
theorem handled_send_idle (hw : Watched b.supervisor h last) {cmdCode : Nat} {param : List UInt8}
    {path : TransmissionPath} (hop : e.op = .send cmdCode param path)
    (hstep : customCmdStep b h.s e = some ({ h.s with now := h.s.now + e.wait + e.lag }, []))
    (hnone : b.awaited cmdCode param = none) : Handled b h e := by
  refine ⟨_, _, last, hstep, ?_, ?_⟩
  · simp only [CallsHandlers, hop]
  · simp only [hop, pendingAfter, hnone]
    exact hw.wait (by omega)

theorem handled_send (hw : Watched b.supervisor h last) {cmdCode : Nat} {param : List UInt8}
    {path : TransmissionPath} (hop : e.op = .send cmdCode param path)
    (hen : Enabled b h.s e) (hsup : Supervisable b h.s e) : Handled b h e := by
  simp only [Enabled, hop] at hen
  simp only [Supervisable, hop] at hsup
  by_cases hcode : cmdCode < opCommandCount
  · by_cases hparam : param.length ≤ sizeofParam
    · obtain ⟨i, c, hi, hc, hlookup, hsup⟩ := hsup hcode hparam
      have hawaited := b.awaited_eq hcode hparam hi hc
      cases hneed : c.isNeedResponse with
      | false =>
        rw [hneed, if_neg Bool.false_ne_true] at hawaited
        refine handled_send_idle hw hop ?_ hawaited
        simp only [customCmdStep, hop, sendCustomCommand_eq hcode hparam hlookup hc, hneed,
          Bool.false_eq_true, if_false, Option.map_some]
      | true =>
        rw [hneed, if_pos rfl] at hawaited
        obtain ⟨hq, hhandler, htimeout, hothers⟩ := hsup hneed
        have hcount := (hen hcode hparam).2 (by rw [hawaited]; rfl)
        let u := h.s.now + e.wait + e.lag
        have hl : Listed b.supervisor { h.s with now := u } h.pending last :=
          hw.listed.congr rfl rfl
        obtain ⟨s', hs', hwatched⟩ := hl.addWaitingRsp (t := h.s.now + e.wait) (u := u)
          (hw.last_le.trans (Nat.le_add_right _ _)) (Nat.le_add_right _ _) hcount
          (getElem?_supervisor hc) hhandler htimeout hq rfl
          fun x hx hne => ⟨(hothers x hx).1, (hothers x hx).2 hne⟩
        have hadd : addWaitingRsp { h.s with now := u } b.supervisor i (h.s.now + e.wait) u =
            Supervisor.addWaitingRsp b.supervisor { h.s with now := u } i (h.s.now + e.wait) u :=
          addWaitingRsp_eq fun x hx => (hothers x hx).1
        refine ⟨s', [], u, ?_, ?_, ?_⟩
        · simp only [customCmdStep, hop, sendCustomCommand_eq hcode hparam hlookup hc, hneed,
            if_true]
          rw [hadd, hs']
          rfl
        · simp only [CallsHandlers, hop]
        · simp only [hop, pendingAfter, hawaited]
          exact hwatched
    · refine handled_send_idle hw hop ?_ (if_neg fun h => hparam h.2)
      simp only [customCmdStep, hop, sendCustomCommand, if_neg (Nat.not_le.2 hcode),
        if_pos (Nat.not_le.1 hparam), Option.map_some]
  · refine handled_send_idle hw hop ?_ (if_neg fun h => hcode h.1)
    simp only [customCmdStep, hop, sendCustomCommand, if_pos (Nat.not_lt.1 hcode), Option.map_some]

/-- A response that is ignored. -/
theorem handled_ignored (hw : Watched b.supervisor h last) {rsp : CmdRsp} {paramLen : Nat}
    (hop : e.op = .response rsp paramLen)
    (hstep : customCmdStep b h.s e = some ({ h.s with now := h.s.now + e.wait + e.lag }, []))
    (hnone : ∀ i, b.getEntryPointerFromCmdCode rsp.cmdCodeToRsp = some i → paramLen ≤ sizeofRsp →
      h.pending i = none) : Handled b h e := by
  refine ⟨_, _, last, hstep, ?_, ?_⟩
  · simp only [CallsHandlers, hop]
    refine ⟨fun i hi hlen hsome => ?_, fun _ => trivial⟩
    rw [hnone i hi hlen] at hsome
    cases hsome
  · simp only [hop, pendingAfter, List.map_nil, List.not_mem_nil, if_false]
    exact hw.wait (by omega)

/-- A response that is not dropped takes out the entry whose index is its code, and calls the
handler of its command. -/
theorem customCmdStep_response {rsp : CmdRsp} {paramLen i : Nat} {c : CustomCmdInstance}
    (hop : e.op = .response rsp paramLen) (hlen : paramLen ≤ sizeofRsp) (hne : h.s.waiting ≠ [])
    (hi : b.getEntryPointerFromCmdCode rsp.cmdCodeToRsp = some i) (hc : b.table[i]? = some c) :
    customCmdStep b h.s e =
      (removeWaitingRsp { h.s with now := h.s.now + e.wait + e.lag } b.supervisor rsp.cmdCodeToRsp
        (h.s.now + e.wait) (h.s.now + e.wait + e.lag)).map
          fun s => (s, if c.hasCmdRspHandler then [.response i rsp] else []) := by
  simp only [customCmdStep, hop, getResponse, if_neg (Nat.not_lt.2 hlen), if_neg hne, hi, hc,
    Option.map_eq_bind, Option.bind_eq_bind, Option.bind_some]
  cases c.hasCmdRspHandler with
  | false => rfl
  | true => rfl

theorem CustomCmdBuild.exists_getElem? {cmdCode i : Nat}
    (hi : b.getEntryPointerFromCmdCode cmdCode = some i) : ∃ c, b.table[i]? = some c :=
  ⟨_, List.getElem?_eq_getElem (List.findIdx?_eq_some_iff_getElem.1 hi).1⟩

/-- A response for a waiting command whose code is its index. -/
theorem handled_response_of_mem (hw : Watched b.supervisor h last) {rsp : CmdRsp} {paramLen i : Nat}
    (hop : e.op = .response rsp paramLen) (hlen : paramLen ≤ sizeofRsp)
    (hcode : b.getEntryPointerFromCmdCode rsp.cmdCodeToRsp = some i)
    (hi : i ∈ h.s.waiting.map (·.entryIndex)) (hkey : rsp.cmdCodeToRsp = i) (hq : h.s.queued = 0)
    (hpos : ∀ x ∈ h.s.waiting, x.entryIndex ≠ i →
      0 < h.s.msLeft b.supervisor (h.s.now + e.wait) x) : Handled b h e := by
  let u := h.s.now + e.wait + e.lag
  have hl : Listed b.supervisor { h.s with now := u } h.pending last := hw.listed.congr rfl rfl
  obtain ⟨s', last', hs', hwatched⟩ := hl.removeWaitingRsp (t := h.s.now + e.wait) (u := u)
    (hw.last_le.trans (Nat.le_add_right _ _)) (Nat.le_add_right _ _) hi hq rfl hpos
  have hremove : removeWaitingRsp { h.s with now := u } b.supervisor i (h.s.now + e.wait) u =
      Supervisor.removeWaitingRsp b.supervisor { h.s with now := u } i (h.s.now + e.wait) u :=
    removeWaitingRsp_eq hw.listed.distinct hpos
  obtain ⟨c, hc⟩ := CustomCmdBuild.exists_getElem? hcode
  obtain ⟨x, hx, rfl⟩ := List.mem_map.1 hi
  obtain ⟨c', sent, hc', hhandler, -, hsent, -⟩ := hw.listed.entry x hx
  obtain rfl : c.toCmdInstance = c' := Option.some.inj ((getElem?_supervisor hc).symm.trans hc')
  refine ⟨s', [.response x.entryIndex rsp], last', ?_, ?_, ?_⟩
  · rw [customCmdStep_response hop hlen (List.ne_nil_of_mem hx) hcode hc, hkey, hremove, hs',
      Option.map_some, hhandler, if_pos rfl]
  · simp only [CallsHandlers, hop, hcode]
    refine ⟨fun j hj _ _ => ?_, fun hnone => ?_⟩
    · rw [Option.some.inj hj]
    · rw [hnone _ rfl hlen] at hsent
      cases hsent
  · simp only [hop, pendingAfter, List.map_singleton, List.mem_singleton, HandlerCall.entryIndex]
    exact hwatched

/-- A response that is for no waiting command does nothing when there is no handler to call and no
entry with its code for an index. -/
theorem handled_response_of_not_mem (hw : Watched b.supervisor h last) {rsp : CmdRsp}
    {paramLen i : Nat} (hop : e.op = .response rsp paramLen) (hlen : paramLen ≤ sizeofRsp)
    (hne : h.s.waiting ≠ []) (hcode : b.getEntryPointerFromCmdCode rsp.cmdCodeToRsp = some i)
    (hi : i ∉ h.s.waiting.map (·.entryIndex))
    (hkey : rsp.cmdCodeToRsp ∉ h.s.waiting.map (·.entryIndex))
    (hno : ∀ c, b.table[i]? = some c → c.hasCmdRspHandler = false) : Handled b h e := by
  obtain ⟨c, hc⟩ := CustomCmdBuild.exists_getElem? hcode
  refine handled_ignored hw hop ?_ fun j hj _ => ?_
  · have hremove : removeWaitingRsp { h.s with now := h.s.now + e.wait + e.lag } b.supervisor
        rsp.cmdCodeToRsp (h.s.now + e.wait) (h.s.now + e.wait + e.lag) =
          some { h.s with now := h.s.now + e.wait + e.lag } := by
      simp only [removeWaitingRsp, if_neg hne, Keyed.findIdx?_eq_none_iff.2 hkey]
    rw [customCmdStep_response hop hlen hne hcode hc, hremove, hno c hc, Option.map_some,
      if_neg Bool.false_ne_true]
  · obtain rfl : i = j := Option.some.inj (hcode.symm.trans hj)
    exact hw.listed.pending_eq_none hi

theorem handled_response (hw : Watched b.supervisor h last) {rsp : CmdRsp} {paramLen : Nat}
    (hop : e.op = .response rsp paramLen) (hsup : Supervisable b h.s e) : Handled b h e := by
  simp only [Supervisable, hop] at hsup
  by_cases hlen : paramLen ≤ sizeofRsp
  · by_cases hne : h.s.waiting = []
    · refine handled_ignored hw hop ?_ fun i _ _ => hw.listed.pending_eq_none (by simp [hne])
      simp only [customCmdStep, hop, getResponse, if_neg (Nat.not_lt.2 hlen), if_pos hne]
    · cases hcode : b.getEntryPointerFromCmdCode rsp.cmdCodeToRsp with
      | none =>
        refine handled_ignored hw hop ?_ fun i hi => absurd (hcode.symm.trans hi) nofun
        simp only [customCmdStep, hop, getResponse, if_neg (Nat.not_lt.2 hlen), if_neg hne, hcode]
      | some i =>
        have hi := hsup hlen hne i hcode
        split_ifs at hi with hmem
        · exact handled_response_of_mem hw hop hlen hcode hmem hi.1 hi.2.1 hi.2.2
        · exact handled_response_of_not_mem hw hop hlen hne hcode hmem hi.1 hi.2
  · refine handled_ignored hw hop ?_ fun i _ hle => absurd hle hlen
    simp only [customCmdStep, hop, getResponse, if_pos (Nat.not_le.1 hlen)]

theorem handled_expire (hw : Watched b.supervisor h last) (hop : e.op = .expire)
    (hen : Enabled b h.s e) : Handled b h e := by
  simp only [Enabled, hop] at hen
  obtain ⟨timer, htimer, hdue⟩ := hen
  let u := h.s.now + e.wait + e.lag
  have hwait : Watched b.supervisor ⟨{ h.s with now := u }, h.pending⟩ last := hw.wait (by omega)
  refine ⟨{ h.s with now := u, timer := none, queued := h.s.queued + 1 }, [], last, ?_, ?_, ?_⟩
  · simp only [customCmdStep, hop, htimer, if_pos hdue]
    rfl
  · simp only [CallsHandlers, hop]
  · simp only [hop, pendingAfter, List.map_nil, List.not_mem_nil, if_false]
    exact hwait.expire htimer hdue

theorem handled_callback (hw : Watched b.supervisor h last) (hop : e.op = .callback)
    (hen : Enabled b h.s e) (hsup : Supervisable b h.s e) : Handled b h e := by
  simp only [Enabled, hop] at hen
  simp only [Supervisable, hop] at hsup
  let u := h.s.now + e.wait + e.lag
  obtain ⟨x, c', sent, s', last', hq1, hx, hothers, hc', hhandler, hsent, hdue, hs', hwatched⟩ :=
    hw.takeFirst (u := u) hen (Nat.le_add_right _ _) (Nat.le_add_right _ _) hsup
  have hremove : removeWaitingRsp { h.s with now := u, queued := 0 } b.supervisor x.entryIndex
      (h.s.now + e.wait) u = Supervisor.removeWaitingRsp b.supervisor
        { h.s with now := u, queued := 0 } x.entryIndex (h.s.now + e.wait) u :=
    removeWaitingRsp_eq hw.listed.distinct hothers
  obtain ⟨c, hc, rfl⟩ := exists_of_supervisor hc'
  refine ⟨s', [.timeout x.entryIndex], last', ?_, ?_, ?_⟩
  · have hstep : customCmdStep b h.s e =
        rspSupervisionTimerCb { h.s with now := u, queued := 0 } b.supervisor (h.s.now + e.wait)
          u := by
      simp only [customCmdStep, hop, hq1, Nat.sub_self]
      rfl
    simp only [hstep, rspSupervisionTimerCb, hx, Option.bind_eq_bind, Option.bind_some, hremove,
      hs', hc', hhandler, if_true, Option.pure_def]
  · simp only [CallsHandlers, hop]
    exact ⟨x.entryIndex, sent, c, rfl, hsent, hc,
      hdue.trans (b.supervisor.osTick_mono (by omega))⟩
  · simp only [hop, pendingAfter, List.map_singleton, List.mem_singleton, HandlerCall.entryIndex]
    exact hwatched

theorem handled (hw : Watched b.supervisor h last) (hen : Enabled b h.s e)
    (hsup : Supervisable b h.s e) : Handled b h e := by
  cases hop : e.op with
  | send cmdCode param path => exact handled_send hw hop hen hsup
  | response rsp paramLen => exact handled_response hw hop hsup
  | expire => exact handled_expire hw hop hen
  | callback => exact handled_callback hw hop hen hsup

end Events

/-! ### Runs -/

theorem Handled.keepsSupervision {b : CustomCmdBuild} {h : Supervision} {e : CustomCmdEvent}
    (hh : Handled b h e) :
    ∃ s calls, customCmdStep b h.s e = some (s, calls) ∧ CallsHandlers b h e calls ∧
      (Supervision.mk s (pendingAfter b h (h.s.now + e.wait) calls e.op)).Supervised := by
  obtain ⟨s, calls, last, hstep, hcalls, hw⟩ := hh
  exact ⟨s, calls, hstep, hcalls, hw.supervised⟩

theorem length_lt_of_addWaitingRsp {b : SupervisorBuild} {s s' : Supervisor} {i t u : Nat}
    (h : addWaitingRsp s b i t u = some s') : s.waiting.length < waitingRspTimeoutCount := by
  by_contra hcount
  rw [addWaitingRsp, if_pos (Nat.not_lt.1 hcount)] at h
  cases h

/-- An event that is handled as it should and that happens was possible. -/
theorem enabled_of_step {b : CustomCmdBuild} {s : Supervisor} {e : CustomCmdEvent}
    {r : Supervisor × List HandlerCall} (hsup : Supervisable b s e)
    (h : customCmdStep b s e = some r) : Enabled b s e := by
  unfold customCmdStep at h
  unfold Supervisable at hsup
  unfold Enabled
  cases hop : e.op with
  | send cmdCode param path =>
    simp only [hop] at h hsup
    intro hcode hparam
    obtain ⟨i, c, hi, hc, hlookup, -⟩ := hsup hcode hparam
    refine ⟨Option.isSome_of_eq_some hi, fun hsome => ?_⟩
    rw [b.awaited_eq hcode hparam hi hc] at hsome
    rw [sendCustomCommand_eq hcode hparam hlookup hc] at h
    split_ifs at hsome h with hneed
    · obtain ⟨_, hadd, -⟩ := Option.map_eq_some_iff.1 h
      obtain ⟨s', hs', -⟩ := Option.map_eq_some_iff.1 hadd
      have hcount := length_lt_of_addWaitingRsp hs'
      exact hcount
    · cases hsome
  | response rsp paramLen => trivial
  | expire =>
    simp only [hop] at h
    cases htimer : s.timer with
    | none =>
      rw [htimer] at h
      cases h
    | some timer =>
      simp only [htimer] at h
      split_ifs at h with hdue
      exact ⟨timer, rfl, hdue⟩
  | callback =>
    simp only [hop] at h
    split_ifs at h with hq
    exact hq

/-- The invariant is kept by the events that are handled as they should. -/
theorem watched_step {b : CustomCmdBuild} {h h' : Supervision} {e : CustomCmdEvent}
    (hw : ∃ last, Watched b.supervisor h last) (hsup : Supervisable b h.s e)
    (hstep : step b h e = some h') : ∃ last, Watched b.supervisor h' last := by
  obtain ⟨last, hw⟩ := hw
  obtain ⟨r, hr, rfl⟩ := Option.map_eq_some_iff.1 hstep
  obtain ⟨s, calls, last', hs, -, hw'⟩ := handled hw (enabled_of_step hsup hr) hsup
  obtain rfl : r = (s, calls) := Option.some.inj (hr.symm.trans hs)
  exact ⟨last', hw'⟩

/-- Waiting commands are supervised along every history of events that are handled as they
should. -/
theorem keepsSupervision_along {b : CustomCmdBuild} {es : List CustomCmdEvent}
    (hes : Along (step b) (fun h e => Supervisable b h.s e) .initial es) :
    Along (step b) (KeepsSupervision b) .initial es := by
  refine (hes.strengthen (I := fun h => ∃ last, Watched b.supervisor h last)
    (fun h e h' hw hsup hstep => watched_step hw hsup hstep)
    ⟨0, Tota.watched_initial b.supervisor⟩).mono ?_
  rintro h e ⟨⟨last, hw⟩, hsup⟩ hen
  exact (handled hw hen hsup).keepsSupervision

theorem declared_ticksPerMs_pos : 0 < 16 := by decide

/-- The commands in the order in which they are declared, with the equalizer. -/
def CustomCmdBuild.declared : CustomCmdBuild where
  table := [⟨⟨0, 0, false⟩, false⟩, ⟨⟨1, 2000, true⟩, true⟩, ⟨⟨2, 2000, true⟩, true⟩,
    ⟨⟨3, 0, false⟩, false⟩, ⟨⟨4, 5000, true⟩, true⟩, ⟨⟨5, 0, false⟩, false⟩, ⟨⟨6, 0, false⟩, false⟩,
    ⟨⟨7, 0, false⟩, false⟩]
  ticksPerMs := 16
  phase := 0
  ticksPerMs_pos := declared_ticksPerMs_pos

/-- The commands that start and stop a raw data transfer, linked in front of the others. -/
def CustomCmdBuild.transferFirst : CustomCmdBuild where
  table := [⟨⟨1, 2000, true⟩, true⟩, ⟨⟨2, 2000, true⟩, true⟩, ⟨⟨0, 0, false⟩, false⟩,
    ⟨⟨3, 0, false⟩, false⟩, ⟨⟨4, 5000, true⟩, true⟩, ⟨⟨5, 0, false⟩, false⟩, ⟨⟨6, 0, false⟩, false⟩,
    ⟨⟨7, 0, false⟩, false⟩]
  ticksPerMs := 16
  phase := 0
  ticksPerMs_pos := declared_ticksPerMs_pos

/-- A raw data transfer is started, the other side responds, and then it does not. -/
theorem keepsSupervision_along_declared :
    Along (step .declared) (KeepsSupervision .declared) .initial
      [⟨0, 0, .send 1 [] .viaNotification⟩, ⟨160, 1, .response ⟨1, 0, []⟩ 6⟩,
        ⟨16, 0, .send 1 [] .viaNotification⟩, ⟨32000, 0, .expire⟩, ⟨0, 0, .callback⟩] := by
  refine keepsSupervision_along ⟨fun _ _ => ⟨1, _, rfl, rfl, rfl, fun _ =>
    ⟨rfl, rfl, by decide, by decide⟩⟩, fun _ h => ?_⟩
  obtain rfl := Option.some.inj h
  refine ⟨fun _ _ i hi => ?_, fun _ h => ?_⟩
  · obtain rfl := Option.some.inj hi
    exact ⟨rfl, rfl, by decide⟩
  obtain rfl := Option.some.inj h
  refine ⟨fun _ _ => ⟨1, _, rfl, rfl, rfl, fun _ => ⟨rfl, rfl, by decide, by decide⟩⟩,
    fun _ h => ?_⟩
  obtain rfl := Option.some.inj h
  refine ⟨trivial, fun _ h => ?_⟩
  obtain rfl := Option.some.inj h
  exact ⟨by dsimp only [Supervisable]; decide, fun _ _ => trivial⟩

/-- The lookup does not find the command that stops a raw data transfer. A response leaves an entry
whose index is not the code of its command. Two commands whose timeouts have passed together fail
the assertion of the refresh. -/
theorem not_keepsSupervision :
    ¬Along (step .declared) (KeepsSupervision .declared) .initial
        [⟨0, 0, .send 2 [] .viaNotification⟩] ∧
      ¬Along (step .transferFirst) (KeepsSupervision .transferFirst) .initial
        [⟨0, 0, .send 1 [] .viaNotification⟩, ⟨160, 0, .response ⟨1, 0, []⟩ 6⟩] ∧
      ¬Along (step .transferFirst) (KeepsSupervision .transferFirst) .initial
        [⟨0, 0, .send 1 [] .viaNotification⟩, ⟨0, 0, .send 2 [] .viaNotification⟩,
          ⟨32000, 0, .expire⟩, ⟨0, 0, .callback⟩] := by
  refine ⟨?_, ?_, ?_⟩
  · rintro ⟨h, -⟩
    obtain ⟨s, calls, hstep, -⟩ := h fun _ _ => ⟨rfl, fun _ => by decide⟩
    cases hstep
  · rintro ⟨-, h⟩
    obtain ⟨s, calls, hstep, -, hsup⟩ := (h _ rfl).1 trivial
    obtain ⟨rfl, rfl⟩ := Prod.mk.inj (Option.some.inj hstep)
    exact absurd ((hsup.pending 0).2 (by decide)) (by decide)
  · rintro ⟨-, h⟩
    obtain ⟨s, calls, hstep, -⟩ := (((h _ rfl).2 _ rfl).2 _ rfl).1 (by dsimp only [Enabled]; decide)
    cases hstep

end EarbudFirmware.CustomCmd
